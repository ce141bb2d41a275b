/-! A place in a source text, counted from line 1 and column 1. Both counters
are 32-bit words, so they wrap on texts of more than four billion characters. -/
namespace ToyC

structure Position where
  line : UInt32
  column : UInt32
deriving DecidableEq, Repr

namespace Position

/-- The place of the first character of a text. -/
def start : Position := ⟨1, 1⟩

/-- The place `columns` further on the same line. -/
def along (place : Position) (columns : Nat) : Position :=
  ⟨place.line, place.column + UInt32.ofNat columns⟩

/-- The first column of the next line. -/
def nextLine (place : Position) : Position := ⟨place.line + 1, 1⟩

/-- The text `line L, column C`. -/
def text (place : Position) : String :=
  "line " ++ toString place.line.toNat ++ ", column " ++ toString place.column.toNat

@[simp] theorem along_zero (place : Position) : place.along 0 = place := by
  cases place; simp [along]

theorem along_along (place : Position) (first second : Nat) :
    (place.along first).along second = place.along (first + second) := by
  simp [along, UInt32.ofNat_add, UInt32.add_assoc]

end Position

end ToyC
