import Schemata.Decimal.Notation

/-!
# Number literals

A literal has the form `-?digits(.digits)?([eE][+-]?digits)?`.  Without
fraction and exponent it is an exact whole number of at most 128 bits; with
one of them it is the nearest double.
-/

namespace Schemata

open Decimal

/-- A number as written in a schema. -/
inductive Number where
  | integer (value : Int)
  | float (value : Double)
deriving DecidableEq, Repr

/-- Why a text is no number. -/
inductive NumberError where
  | malformed (text : String)
  | outOfRange (text : String)
deriving DecidableEq, Repr

/-- Message of a number error. -/
def NumberError.message : NumberError → String
  | .malformed text => s!"malformed number literal `{text}`"
  | .outOfRange text => s!"number literal `{text}` is out of range"

namespace Number

/-- Least whole number of a literal. -/
def least : Int :=
  -170141183460469231731687303715884105728

/-- Greatest whole number of a literal. -/
def greatest : Int :=
  170141183460469231731687303715884105727

/-- The parts of a literal, each a list of characters that has not been checked. -/
structure Parts where
  negative : Bool
  whole : List Char
  fraction : Option (List Char)
  exponent : Option (List Char)

/-- Cut at the first character that satisfies `mark`. -/
def cut
    (mark : Char → Bool)
    (cs : List Char) :
    List Char × Option (List Char) :=
  match cs.span (!mark ·) with
  | (before, _ :: after) => (before, some after)
  | (before, []) => (before, none)

/-- Cut a literal into its parts. -/
def Parts.ofText
    (cs : List Char) :
    Parts :=
  let (negative, unsigned) :=
    match cs with
    | '-' :: rest => (true, rest)
    | rest => (false, rest)
  let (mantissa, exponent) := cut (fun c => c == 'e' || c == 'E') unsigned
  let (whole, fraction) := cut (· == '.') mantissa
  { negative, whole, fraction, exponent }

/-- The digits of an exponent, after its sign. -/
def exponentDigits : List Char → List Char
  | '+' :: rest => rest
  | '-' :: rest => rest
  | rest => rest

/-- Value of an exponent. -/
def exponentValue : List Char → Int
  | '-' :: rest => -(Text.digitsValue rest : Int)
  | rest => Text.digitsValue (exponentDigits rest)

/-- Every part is a run of digits. -/
def Parts.wellFormed
    (p : Parts) :
    Bool :=
  Text.isDigits p.whole
    && p.fraction.all Text.isDigits
    && p.exponent.all fun e => Text.isDigits (exponentDigits e)

/-- The number that well-formed parts denote, if it is in range. -/
def Parts.value?
    (p : Parts) :
    Option Number :=
  match p.fraction, p.exponent with
  | none, none =>
      let size : Int := Text.digitsValue p.whole
      let value := if p.negative then -size else size
      if least ≤ value ∧ value ≤ greatest then some (.integer value) else none
  | fraction, exponent =>
      let places := fraction.getD []
      let shift : Int := (exponent.map exponentValue).getD 0
      some (.float (Double.ofDecimal p.negative (Text.digitsValue (p.whole ++ places))
        (shift - places.length)))

/-- Read a literal. -/
def parse
    (text : String) :
    Except NumberError Number :=
  let parts := Parts.ofText text.toList
  if parts.wellFormed then
    match parts.value? with
    | some number => .ok number
    | none => .error (.outOfRange text)
  else .error (.malformed text)

/-- The exact value of a whole number. -/
def asInteger? : Number → Option Int
  | integer value => some value
  | float _ => none

/-- The nearest double. -/
def asDouble : Number → Double
  | integer value => Double.ofInt value
  | float value => value

/-- The written form of a number. -/
def display : Number → String
  | integer value => toString value
  | float value => value.display

end Number

end Schemata
