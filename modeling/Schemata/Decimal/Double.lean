import Schemata.Decimal.Round

/-!
# Decimal: doubles

A double is its 64 bits: a sign, eleven bits of exponent and 52 bits of
fraction.  A finite double is `± significand · 2 ^ scale`.

Reading rounds an exact quotient to the nearest double, ties to even; too
large a value becomes an infinity.  Everything is computed on natural numbers.
-/

namespace Schemata
namespace Decimal

/-- A number in binary floating point with 64 bits. -/
structure Double where
  bits : UInt64
deriving DecidableEq, Repr

namespace Double

/-- The number of values of the bits below the sign. -/
def signBit : Nat :=
  9223372036854775808

/-- The number of values of the fraction. -/
def fractionSize : Nat :=
  4503599627370496

/-- The sign bit is set. -/
def isNegative
    (d : Double) :
    Bool :=
  signBit ≤ d.bits.toNat

/-- The bits below the sign. -/
def magnitude
    (d : Double) :
    Nat :=
  d.bits.toNat % signBit

/-- The bits of an infinity, without its sign. -/
def infinityMagnitude : Nat :=
  2047 * fractionSize

/-- Neither infinite nor not-a-number. -/
def isFinite
    (d : Double) :
    Bool :=
  d.magnitude < infinityMagnitude

/-- Infinite, of either sign. -/
def isInfinite
    (d : Double) :
    Bool :=
  d.magnitude == infinityMagnitude

/-- The whole number that the scale multiplies. -/
def significand
    (d : Double) :
    Nat :=
  if d.magnitude < fractionSize then d.magnitude
  else d.magnitude % fractionSize + fractionSize

/-- The power of two that multiplies the significand. -/
def scale
    (d : Double) :
    Int :=
  if d.magnitude < fractionSize then -1074
  else (d.magnitude / fractionSize : Nat) - 1075

/-- The double with a sign and a magnitude. -/
def ofMagnitude
    (negative : Bool)
    (magnitude : Nat) :
    Double :=
  ⟨UInt64.ofNat (magnitude + if negative then signBit else 0)⟩

/-- `num / (den · 2 ^ scale)`, rounded. -/
def scaledQuotient
    (num den : Nat)
    (scale : Int) :
    Nat :=
  if 0 ≤ scale then roundDiv .toEven num (den * Nat.pow 2 scale.toNat)
  else roundDiv .toEven (num * Nat.pow 2 (-scale).toNat) den

/-- `2 ^ power ≤ num / den`. -/
def powerLe
    (power : Int)
    (num den : Nat) :
    Bool :=
  if 0 ≤ power then den * Nat.pow 2 power.toNat ≤ num
  else den ≤ num * Nat.pow 2 (-power).toNat

/-- The scale at which `num / den` has 53 significant bits, but no smaller than the least. -/
def scaleOf
    (num den : Nat) :
    Int :=
  let guess : Int := (num.log2 : Int) - den.log2
  let power := if powerLe guess num den then guess else guess - 1
  max (power - 52) (-1074)

/-- The double nearest to `± num / den`, ties to even. -/
def ofRatio
    (negative : Bool)
    (num den : Nat) :
    Double :=
  if num = 0 then ofMagnitude negative 0
  else
    let scale := scaleOf num den
    let magnitude := (scale + 1074).toNat * fractionSize + scaledQuotient num den scale
    ofMagnitude negative (min magnitude infinityMagnitude)

/-- The double nearest to `± digits · 10 ^ exponent`.  Values far outside the range of doubles are
settled by their size alone. -/
def ofDecimal
    (negative : Bool)
    (digits : Nat)
    (exponent : Int) :
    Double :=
  let size : Int := (Nat.toDigits 10 digits).length + exponent
  if digits = 0 then ofMagnitude negative 0
  else if 400 < size then ofMagnitude negative infinityMagnitude
  else if size < -400 then ofMagnitude negative 0
  else if 0 ≤ exponent then ofRatio negative (digits * Nat.pow 10 exponent.toNat) 1
  else ofRatio negative digits (Nat.pow 10 (-exponent).toNat)

/-- The double nearest to a whole number. -/
def ofInt
    (n : Int) :
    Double :=
  ofRatio (n < 0) n.natAbs 1

/-- The sixteen hexadecimal digits of the bits are determined by this number. -/
def ofBits
    (n : Nat) :
    Double :=
  ⟨UInt64.ofNat n⟩

end Double

end Decimal
end Schemata
