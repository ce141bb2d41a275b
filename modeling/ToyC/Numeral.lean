import ToyC.Binary32

/-! Numbers in decimal notation: digit strings, and the texts that name a
floating-point number. -/
namespace ToyC

def digitValue (c : Char) : Nat := c.toNat - '0'.toNat

/-- The value of a digit string; leading zeros do not count. -/
def digitsValue (digits : List Char) : Nat :=
  digits.foldl (fun value c => 10 * value + digitValue c) 0

namespace Binary32

/-- The number written `whole.fraction`. -/
def ofDigits (whole fraction : List Char) : Binary32 :=
  ofDecimal false (digitsValue (whole ++ fraction)) (-fraction.length)

/-- A leading sign, if there is one, and what follows it. -/
def splitSign : List Char → Bool × List Char
  | '+' :: rest => (false, rest)
  | '-' :: rest => (true, rest)
  | text => (false, text)

/-- The exponent part of a numeral: nothing, or `e` and an integer. -/
def exponent? : List Char → Option Int
  | [] => some 0
  | mark :: rest =>
    let (negative, digits) := splitSign rest
    if (mark == 'e' || mark == 'E') && !digits.isEmpty && digits.all Char.isDigit then
      some (if negative then -(digitsValue digits : Int) else digitsValue digits)
    else none

/-- An unsigned numeral: digits with at most one point among them, at least one
digit, and an optional exponent. -/
def magnitude? (negative : Bool) (text : List Char) : Option Binary32 :=
  let whole := text.takeWhile Char.isDigit
  let afterWhole := text.dropWhile Char.isDigit
  let afterPoint := match afterWhole with
    | '.' :: rest => rest
    | _ => []
  let fraction := afterPoint.takeWhile Char.isDigit
  let tail := match afterWhole with
    | '.' :: rest => rest.dropWhile Char.isDigit
    | rest => rest
  if whole.isEmpty && fraction.isEmpty then none
  else (exponent? tail).map fun exponent =>
    ofDecimal negative (digitsValue (whole ++ fraction)) (exponent - fraction.length)

/-- The number a text names: a signed numeral, `inf`, `infinity` or `nan`, the
words in any case. -/
def ofText? (text : String) : Option Binary32 :=
  let (negative, body) := splitSign text.toList
  let word := String.ofList (body.map Char.toLower)
  if word = "inf" || word = "infinity" then some (infinity negative)
  else if word = "nan" then some nan
  else magnitude? negative body

end Binary32

end ToyC
