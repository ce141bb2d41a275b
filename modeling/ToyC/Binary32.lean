/-! Floating-point numbers of 32 bits, as words: one sign bit, eight bits of
exponent, 23 bits of fraction. Nothing is computed with them: a number is read,
kept, compared bit for bit and written. Rounding a ratio of naturals is exact
arithmetic on naturals, to the nearest number, ties to an even significand. -/
namespace ToyC

structure Binary32 where
  bits : UInt32
deriving DecidableEq, Repr

namespace Binary32

/-- The bit of the sign, above the exponent and the fraction. -/
def signBit : Nat := 1 <<< 31

/-- The first bit above the fraction. A significand has it, unless the exponent
field is zero; a word does not. -/
def hiddenBit : Nat := 1 <<< 23

def isNegative (x : Binary32) : Bool := signBit ≤ x.bits.toNat

/-- The word without its sign bit. Finite magnitudes are ordered like these. -/
def magnitude (x : Binary32) : Nat := x.bits.toNat % signBit

/-- The word of infinity: the first one past the finite magnitudes. -/
def infiniteMagnitude : Nat := 255 * hiddenBit

def isInfinite (x : Binary32) : Bool := x.magnitude = infiniteMagnitude

def isNaN (x : Binary32) : Bool := infiniteMagnitude < x.magnitude

def exponentField (x : Binary32) : Nat := x.magnitude / hiddenBit

def fractionField (x : Binary32) : Nat := x.magnitude % hiddenBit

/-- A finite number is `significand * 2 ^ scale`, up to its sign. -/
def significand (x : Binary32) : Nat :=
  if x.exponentField = 0 then x.fractionField else x.fractionField + hiddenBit

def scale (x : Binary32) : Int := max x.exponentField 1 - 150

/-- The number with a sign and a magnitude below the sign's bit. -/
def ofMagnitude (negative : Bool) (magnitude : Nat) : Binary32 :=
  ⟨UInt32.ofNat (if negative then signBit + magnitude else magnitude)⟩

def zero (negative : Bool) : Binary32 := ofMagnitude negative 0

def infinity (negative : Bool) : Binary32 := ofMagnitude negative infiniteMagnitude

def nan : Binary32 := ofMagnitude false (infiniteMagnitude + hiddenBit / 2)

/-- The natural nearest to a quotient; a half goes to the even neighbour. -/
def nearestEven (dividend divisor : Nat) : Nat :=
  let floor := dividend / divisor
  let rest := dividend % divisor
  if 2 * rest < divisor then floor
  else if divisor < 2 * rest then floor + 1
  else floor + floor % 2

/-- The largest `e` with `2 ^ e ≤ dividend / divisor`. -/
def floorLog2 (dividend divisor : Nat) : Int :=
  let guess : Int := (dividend.log2 : Int) - divisor.log2
  if dividend <<< (-guess).toNat < divisor <<< guess.toNat then guess - 1 else guess

/-- The number nearest to a positive quotient. One unit of the last place is
`2 ^ place`; a significand that reaches the next power of two carries into the
exponent field by itself, and past the last finite number it is infinity. -/
def ofRatio (negative : Bool) (dividend divisor : Nat) : Binary32 :=
  let place : Int := max (floorLog2 dividend divisor - 23) (-149)
  let units := nearestEven (dividend <<< (-place).toNat) (divisor <<< place.toNat)
  ofMagnitude negative (min ((place + 149).toNat * hiddenBit + units) infiniteMagnitude)

/-- The number nearest to `digits * 10 ^ exponent`. Exponents far out of range
are settled without computing the power. -/
def ofDecimal (negative : Bool) (digits : Nat) (exponent : Int) : Binary32 :=
  if digits = 0 then zero negative
  else if 40 < exponent then infinity negative
  else if (digits.log2 : Int) + 161 < -3 * exponent then zero negative
  else ofRatio negative (digits * Nat.pow 10 exponent.toNat) (Nat.pow 10 (-exponent).toNat)

end Binary32

end ToyC
