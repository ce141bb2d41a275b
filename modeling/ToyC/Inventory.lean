import ToyC.Program

/-! What the checks after parsing look at: flat lists of all declarations,
references, assignments and conditions of a program, each in source order. -/
namespace ToyC

structure Inventory where
  declarations : List VarDecl
  identifiers : List String
  assignments : List Assignment
  conditions : List Expr
deriving DecidableEq, Repr

namespace Inventory

def empty : Inventory := ⟨[], [], [], []⟩

def reverse (inventory : Inventory) : Inventory :=
  ⟨inventory.declarations.reverse, inventory.identifiers.reverse, inventory.assignments.reverse,
    inventory.conditions.reverse⟩

end Inventory

end ToyC
