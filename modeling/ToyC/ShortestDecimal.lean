import ToyC.Binary32

/-! The text of a floating-point number: the fewest digits that read back to
it. The numbers that round to `x` form an interval; the text names a point of
the coarsest decimal grid that has one in this interval, the point nearest to
`x`, the upper of two as near. Plain notation is kept for magnitudes from
`10 ^ -4` to below `10 ^ 16`, always with a fraction digit. -/
namespace ToyC.Binary32

/-- A positive decimal `digits * 10 ^ exponent`. -/
structure Decimal where
  digits : Nat
  exponent : Int
deriving DecidableEq, Repr

/-- Whether the number below a finite positive one is only half as far away as
the number above: at a power of two that is not the least normal one. -/
def hasNarrowGapBelow (x : Binary32) : Bool := x.fractionField = 0 && 1 < x.exponentField

/-- The interval that rounds to a finite positive number, in quarters of a unit
of its last place. Its ends belong to it iff the significand is even. -/
def leastQuarters (x : Binary32) : Nat := 4 * x.significand - (if x.hasNarrowGapBelow then 1 else 2)

def greatestQuarters (x : Binary32) : Nat := 4 * x.significand + 2

def roundsFrom (x : Binary32) (quarters multiple grid : Nat) : Bool :=
  let low := x.leastQuarters * quarters
  let high := x.greatestQuarters * quarters
  if x.significand % 2 = 0 then low ≤ multiple * grid && multiple * grid ≤ high
  else low < multiple * grid && multiple * grid < high

/-- The multiple of `10 ^ exponent` that rounds to `x` and is nearest to it, if
one of its two neighbours on that grid does. -/
def onGrid? (x : Binary32) (exponent : Int) : Option Decimal :=
  let place := x.scale - 2
  let quarters := Nat.pow 10 (-exponent).toNat <<< place.toNat
  let grid := Nat.pow 10 exponent.toNat <<< (-place).toNat
  let value := 4 * x.significand * quarters
  let below := value / grid
  let above := below + 1
  match x.roundsFrom quarters below grid, x.roundsFrom quarters above grid with
  | true, true => if 2 * (value % grid) < grid then some ⟨below, exponent⟩ else some ⟨above, exponent⟩
  | true, false => some ⟨below, exponent⟩
  | false, true => some ⟨above, exponent⟩
  | false, false => none

/-- The exponents of the grids that are tried, the coarsest first: no number
reaches `10 ^ 39`, and the finest grid has points between any two numbers. -/
def gridExponents : List Int := (List.range 100).map fun step : Nat => 38 - (step : Int)

def shortest (x : Binary32) : Decimal := (gridExponents.findSome? x.onGrid?).getD ⟨0, 0⟩

namespace Decimal

def digitChars (d : Decimal) : List Char := Nat.toDigits 10 d.digits

/-- The exponent of the leading digit. -/
def order (d : Decimal) : Int := d.digitChars.length - 1 + d.exponent

/-- The orders written without an exponent. -/
def isPlain (d : Decimal) : Bool := -4 ≤ d.order && d.order < 16

/-- Plain notation: the point after the digit of order 0, filled up with zeros
on either side, and a zero where no fraction digit is left. -/
def plain (d : Decimal) : List Char :=
  let digits := List.replicate (-d.order).toNat '0' ++ d.digitChars
  let filled := digits ++ List.replicate d.exponent.toNat '0'
  let whole := filled.take (max d.order 0 + 1).toNat
  let fraction := filled.drop (max d.order 0 + 1).toNat
  whole ++ '.' :: (if fraction.isEmpty then ['0'] else fraction)

/-- Exponent notation: one digit, the others after a point, and the order. -/
def scientific (d : Decimal) : List Char :=
  let fraction := d.digitChars.drop 1
  d.digitChars.take 1 ++ (if fraction.isEmpty then [] else '.' :: fraction) ++
    'e' :: (toString d.order).toList

def chars (d : Decimal) : List Char := if d.isPlain then d.plain else d.scientific

end Decimal

/-- The text of a number. Only the zeros and the infinities of either sign and
the values that are no number need a rule of their own. -/
def text (x : Binary32) : String :=
  if x.isNaN then "NaN"
  else
    let unsigned :=
      if x.isInfinite then "inf".toList
      else if x.magnitude = 0 then "0.0".toList
      else x.shortest.chars
    String.ofList (if x.isNegative then '-' :: unsigned else unsigned)

end ToyC.Binary32
