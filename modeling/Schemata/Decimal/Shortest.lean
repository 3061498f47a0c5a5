import Schemata.Decimal.Double

/-!
# Decimal: the fewest digits that read back

Among the decimals that round to a given positive double, `shortest` takes one
with the fewest digits and of those the nearest to the value; `Tie` settles a
draw.  The decimals that round to `m · 2 ^ q` form the interval from halfway
to the neighbour below to halfway to the neighbour above; its ends belong to
it when `m` is even.  For one, two, … digits the two neighbours of the value on
that decimal grid are tried, in exact arithmetic.
-/

namespace Schemata
namespace Decimal

/-- The decimal `digits · 10 ^ exponent`. -/
structure Scientific where
  digits : Nat
  exponent : Int
deriving DecidableEq, Repr

namespace Scientific

/-- Move zeros at the end of the digits into the exponent. -/
def trimAux : Nat → Nat → Int → Scientific
  | 0, digits, exponent => ⟨digits, exponent⟩
  | fuel + 1, digits, exponent =>
      if digits % 10 = 0 then trimAux fuel (digits / 10) (exponent + 1)
      else ⟨digits, exponent⟩

/-- The same decimal, with a last digit other than zero. -/
def trim
    (s : Scientific) :
    Scientific :=
  trimAux (Nat.toDigits 10 s.digits).length s.digits s.exponent

/-- The digits, most significant first. -/
def digitText
    (s : Scientific) :
    String :=
  String.ofList (Nat.toDigits 10 s.digits)

/-- The power of ten of the first digit. -/
def leading
    (s : Scientific) :
    Int :=
  s.exponent + s.digitText.length - 1

end Scientific

/-- A closed or open interval of rationals around a value, over one denominator. -/
structure Interval where
  low : Nat
  value : Nat
  high : Nat
  den : Nat
  closed : Bool

namespace Interval

/-- The decimals that round to a positive double. -/
def ofDouble
    (d : Double) :
    Interval :=
  let m := d.significand
  let q := d.scale
  let below := if m = Double.fractionSize ∧ -1074 < q then 1 else 2
  let factor := if 2 ≤ q then Nat.pow 2 (q - 2).toNat else 1
  let den := if 2 ≤ q then 1 else Nat.pow 2 (2 - q).toNat
  { low := (4 * m - below) * factor
    value := 4 * m * factor
    high := (4 * m + 2) * factor
    den := den
    closed := m % 2 == 0 }

/-- The rational `num / den` lies in the interval. -/
def contains
    (i : Interval)
    (num den : Nat) :
    Bool :=
  if i.closed then i.low * den ≤ num * i.den && num * i.den ≤ i.high * den
  else i.low * den < num * i.den && num * i.den < i.high * den

/-- Least `k` with `den ≤ num · 10 ^ k`, searched up to a bound. -/
def negativePower
    (num den : Nat) :
    Nat → Nat → Nat
  | 0, k => k
  | fuel + 1, k => if den ≤ num then k else negativePower (num * 10) den fuel (k + 1)

/-- The power of ten of the first digit of the value. -/
def leading
    (i : Interval) :
    Int :=
  if i.den ≤ i.value then (Nat.toDigits 10 (i.value / i.den)).length - 1
  else -(negativePower i.value i.den 400 0 : Int)

/-- The better of the value's neighbours on the grid of `10 ^ exponent`, if one is in the interval. -/
def onGrid?
    (i : Interval)
    (tie : Tie)
    (exponent : Int) :
    Option Scientific :=
  let up := if 0 ≤ exponent then Nat.pow 10 exponent.toNat else 1
  let down := if 0 ≤ exponent then 1 else Nat.pow 10 (-exponent).toNat
  let num := i.value * down
  let den := i.den * up
  let low := num / den
  let nearest := roundDiv tie num den
  let other := if nearest = low then low + 1 else low
  if i.contains (nearest * up) down then some ⟨nearest, exponent⟩
  else if i.contains (other * up) down then some ⟨other, exponent⟩
  else none

/-- The first grid that has a decimal of the interval next to the value. -/
def firstGrid
    (i : Interval)
    (tie : Tie)
    (leading : Int) :
    Nat → Nat → Scientific
  | 0, count => ⟨roundDiv tie i.value i.den, count⟩
  | fuel + 1, count =>
      match i.onGrid? tie (leading - count) with
      | some s => s
      | none => firstGrid i tie leading fuel (count + 1)

end Interval

/-- The fewest digits that read back as a positive finite double. -/
def shortest
    (tie : Tie)
    (d : Double) :
    Scientific :=
  let i := Interval.ofDouble d
  (i.firstGrid tie i.leading 20 0).trim

end Decimal
end Schemata
