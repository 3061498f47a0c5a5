import Schemata.Decimal.Shortest
import Schemata.Text.Basic

/-!
# Decimal: written forms of doubles

Two notations share the shortest digits.  `Double.display` is positional for
every size and writes no fraction for whole numbers.  `Double.document` is the
form of JSON documents: positional, with at least one decimal, where the first
digit stands for `10 ^ -5` up to `10 ^ 15`, and with an exponent elsewhere.
-/

namespace Schemata
namespace Decimal

namespace Scientific

/-- Positional form: whole digits, and the digits after the point. -/
def positional
    (s : Scientific) :
    String × String :=
  let digits := s.digitText.toList
  if 0 ≤ s.exponent then
    (s.digitText ++ Text.times s.exponent.toNat "0", "")
  else
    let places := (-s.exponent).toNat
    if digits.length ≤ places then
      ("0", Text.times (places - digits.length) "0" ++ s.digitText)
    else
      let whole := digits.length - places
      (String.ofList (digits.take whole), String.ofList (digits.drop whole))

/-- One digit before the point, and an exponent that always has a sign. -/
def exponential
    (s : Scientific) :
    String :=
  let digits := s.digitText.toList
  let point := if digits.length ≤ 1 then "" else "."
  let mark := if 0 ≤ s.leading then "e+" else "e-"
  String.ofList (digits.take 1) ++ point ++ String.ofList (digits.drop 1) ++ mark ++
    toString s.leading.natAbs

end Scientific

namespace Double

/-- The sign in front of a written double. -/
def signText
    (d : Double) :
    String :=
  if d.isNegative then "-" else ""

/-- Positional form without exponent and without an empty fraction. -/
def display
    (d : Double) :
    String :=
  if d.isFinite then
    if d.magnitude = 0 then d.signText ++ "0"
    else
      let (whole, fraction) := (shortest .up d).positional
      d.signText ++ whole ++ (if fraction.isEmpty then "" else "." ++ fraction)
  else if d.isInfinite then d.signText ++ "inf"
  else "NaN"

/-- The form of JSON documents. -/
def document
    (d : Double) :
    String :=
  if d.magnitude = 0 then d.signText ++ "0.0"
  else
    let s := shortest .toEven d
    if -5 ≤ s.leading ∧ s.leading < 16 then
      let (whole, fraction) := s.positional
      d.signText ++ whole ++ "." ++ (if fraction.isEmpty then "0" else fraction)
    else d.signText ++ s.exponential

end Double

end Decimal
end Schemata
