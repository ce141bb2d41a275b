import ToyC.Diagnostic

/-! Which values may be assigned to which variables. Base types must be equal,
so each ordered pair of different ones is a cast of its own. Constants are
compared with the base type of the target, be it a scalar or an array.
Variables are compared if the source is a scalar; whether both are arrays or
both scalars is a question of its own. -/
namespace ToyC

/-- The right side of an assignment, as far as it has a type. -/
inductive AssignedValue where
  | constant (base : BaseType)
  | reference (type : Ty)
deriving DecidableEq, Repr

/-- The cast from the base type of a value to that of a target, if there is
one. -/
def castFault? (value target : BaseType) : Option Fault :=
  if differ : value ≠ target then some (.cast value target differ) else none

/-- The fault of mixing an array and a scalar. -/
def mixingFault? : Ty → Ty → Option Fault
  | .scalar _, .array _ => some .arrayToSingle
  | .array _, .scalar _ => some .singleToArray
  | _, _ => none

/-- What is wrong with assigning a value to a variable of type `target`. -/
def assignmentFaults (target : Ty) (value : AssignedValue) : List Fault :=
  match target.base?, value with
  | none, _ => []
  | some base, .constant source => (castFault? source base).toList
  | some base, .reference (.scalar source) =>
    (castFault? source base).toList ++ (mixingFault? target (.scalar source)).toList
  | some _, .reference source => (mixingFault? target source).toList

end ToyC
