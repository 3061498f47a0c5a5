import Schemata.Json.Basic
import Schemata.Text.Basic

/-!
# JSON documents: reading

The strict grammar of JSON, with white space around values.  Arrays and
objects may nest up to `maxDepth` levels; recursion is on the number of levels
that are left.  Of two entries with one key the first gives the place and the
last the value.

A whole number is exact if it fits 64 bits, signed or unsigned; every other
number is the nearest double, and a number beyond the doubles is refused.
-/

namespace Schemata
namespace Json

/-- The greatest number of levels of nested arrays and objects. -/
def maxDepth : Nat :=
  127

/-- Drop white space in front. -/
def skipBlank
    (cs : List Char) :
    List Char :=
  cs.dropWhile fun c => c == ' ' || c == '\n' || c == '\t' || c == '\r'

section Strings

/-- Four hexadecimal digits. -/
def hex4? : List Char → Option (Nat × List Char)
  | a :: b :: c :: d :: rest => (Text.hexDigits? [a, b, c, d]).map (·, rest)
  | _ => none

/-- A unit of the first half of a pair. -/
def isHighSurrogate
    (n : Nat) :
    Bool :=
  0xD800 ≤ n && n < 0xDC00

/-- A unit of the second half of a pair. -/
def isLowSurrogate
    (n : Nat) :
    Bool :=
  0xDC00 ≤ n && n < 0xE000

/-- The character of a hexadecimal escape, after its letter; pairs of units give one character. -/
def unicodeEscape?
    (cs : List Char) :
    Option (Char × List Char) :=
  match hex4? cs with
  | none => none
  | some (n, rest) =>
      if isHighSurrogate n then
        match rest with
        | '\\' :: 'u' :: more =>
            match hex4? more with
            | some (m, rest) =>
                if isLowSurrogate m then
                  (Text.scalar? (0x10000 + (n - 0xD800) * 0x400 + (m - 0xDC00))).map (·, rest)
                else none
            | none => none
        | _ => none
      else (Text.scalar? n).map (·, rest)

/-- The character of an escape, after its backslash. -/
def escape? : List Char → Option (Char × List Char)
  | '\x22' :: rest => some ('\x22', rest)
  | '\\' :: rest => some ('\\', rest)
  | '/' :: rest => some ('/', rest)
  | 'b' :: rest => some ('\x08', rest)
  | 'f' :: rest => some ('\x0c', rest)
  | 'n' :: rest => some ('\n', rest)
  | 'r' :: rest => some ('\r', rest)
  | 't' :: rest => some ('\t', rest)
  | 'u' :: rest => unicodeEscape? rest
  | _ => none

/-- The characters up to the closing quote, and the rest after it.  The first argument bounds their
number. -/
def stringBody? : Nat → List Char → Option (List Char × List Char)
  | 0, _ => none
  | _ + 1, [] => none
  | steps + 1, c :: cs =>
      if c = '\x22' then some ([], cs)
      else if c = '\\' then
        match escape? cs with
        | some (d, rest) => (stringBody? steps rest).map fun (ds, rest) => (d :: ds, rest)
        | none => none
      else if c.toNat < 0x20 then none
      else (stringBody? steps cs).map fun (ds, rest) => (c :: ds, rest)

/-- A string, after its opening quote. -/
def string?
    (cs : List Char) :
    Option (String × List Char) :=
  (stringBody? (cs.length + 1) cs).map fun (value, rest) => (String.ofList value, rest)

end Strings

section Numbers

/-- Digits in front, at least one. -/
def digits?
    (cs : List Char) :
    Option (List Char × List Char) :=
  match cs.span Text.isDigit with
  | ([], _) => none
  | (digits, rest) => some (digits, rest)

/-- The whole digits of a number: no zero stands before another digit. -/
def whole? : List Char → Option (List Char × List Char)
  | '0' :: d :: rest => if Text.isDigit d then none else some (['0'], d :: rest)
  | cs => digits? cs

/-- The digits of a fraction, if there is one. -/
def fraction? : List Char → Option (Option (List Char) × List Char)
  | '.' :: rest => (digits? rest).map fun (digits, rest) => (some digits, rest)
  | cs => some (none, cs)

/-- The value of an exponent after its letter. -/
def exponentValue? : List Char → Option (Int × List Char)
  | '+' :: rest => (digits? rest).map fun (ds, rest) => ((Text.digitsValue ds : Int), rest)
  | '-' :: rest => (digits? rest).map fun (ds, rest) => (-(Text.digitsValue ds : Int), rest)
  | cs => (digits? cs).map fun (ds, rest) => ((Text.digitsValue ds : Int), rest)

/-- The exponent, if there is one. -/
def exponent? : List Char → Option (Option Int × List Char)
  | 'e' :: rest | 'E' :: rest =>
      (exponentValue? rest).map fun (value, rest) => (some value, rest)
  | cs => some (none, cs)

/-- The number with these parts, unless it is beyond the doubles. -/
def numberOf?
    (negative : Bool)
    (whole : List Char)
    (fraction : Option (List Char))
    (exponent : Option Int) :
    Option Json :=
  let value := Text.digitsValue whole
  if fraction.isNone && exponent.isNone && !negative && value ≤ 18446744073709551615 then
    some (.integer value)
  else if fraction.isNone && exponent.isNone && negative && 0 < value
      && value ≤ 9223372036854775808 then
    some (.integer (-(value : Int)))
  else
    let places := fraction.getD []
    let d := Decimal.Double.ofDecimal negative (Text.digitsValue (whole ++ places))
      (exponent.getD 0 - places.length)
    if d.isFinite then some (.float d) else none

/-- A number; `negative` says that its sign has been read. -/
def unsigned?
    (negative : Bool)
    (cs : List Char) :
    Option (Json × List Char) :=
  match whole? cs with
  | none => none
  | some (whole, rest) =>
      match fraction? rest with
      | none => none
      | some (fraction, rest) =>
          match exponent? rest with
          | none => none
          | some (exponent, rest) =>
              (numberOf? negative whole fraction exponent).map (·, rest)

/-- A number. -/
def number? : List Char → Option (Json × List Char)
  | '-' :: rest => unsigned? true rest
  | cs => unsigned? false cs

end Numbers

section Structure

variable (value? : List Char → Option (Json × List Char))

/-- The items of an array after the first comma or bracket, up to the closing bracket.  The first
argument bounds their number. -/
def items? : Nat → List Char → Option (List Json × List Char)
  | 0, _ => none
  | steps + 1, cs =>
      match value? cs with
      | none => none
      | some (item, rest) =>
          match skipBlank rest with
          | ',' :: more => (items? steps more).map fun (items, rest) => (item :: items, rest)
          | ']' :: rest => some ([item], rest)
          | _ => none

/-- An array, after its opening bracket. -/
def array?
    (cs : List Char) :
    Option (Json × List Char) :=
  match skipBlank cs with
  | ']' :: rest => some (.array [], rest)
  | _ => (items? value? (cs.length + 1) cs).map fun (items, rest) => (.array items, rest)

/-- An entry of an object. -/
def entry?
    (cs : List Char) :
    Option ((String × Json) × List Char) :=
  match skipBlank cs with
  | '\x22' :: rest =>
      match string? rest with
      | none => none
      | some (key, rest) =>
          match skipBlank rest with
          | ':' :: rest => (value? rest).map fun (value, rest) => ((key, value), rest)
          | _ => none
  | _ => none

/-- The entries of an object after the first comma or brace, up to the closing brace.  The first
argument bounds their number. -/
def entries? : Nat → List (String × Json) → List Char → Option (List (String × Json) × List Char)
  | 0, _, _ => none
  | steps + 1, before, cs =>
      match entry? value? cs with
      | none => none
      | some ((key, value), rest) =>
          let entries := insert before key value
          match skipBlank rest with
          | ',' :: more => entries? steps entries more
          | '\x7d' :: rest => some (entries, rest)
          | _ => none

/-- An object, after its opening brace. -/
def object?
    (cs : List Char) :
    Option (Json × List Char) :=
  match skipBlank cs with
  | '\x7d' :: rest => some (.object [], rest)
  | _ => (entries? value? (cs.length + 1) [] cs).map fun (entries, rest) => (.object entries, rest)

end Structure

/-- A document without arrays and objects. -/
def scalar? : List Char → Option (Json × List Char)
  | 'n' :: 'u' :: 'l' :: 'l' :: rest => some (.null, rest)
  | 't' :: 'r' :: 'u' :: 'e' :: rest => some (.bool true, rest)
  | 'f' :: 'a' :: 'l' :: 's' :: 'e' :: rest => some (.bool false, rest)
  | '\x22' :: rest => (string? rest).map fun (value, rest) => (.string value, rest)
  | cs => number? cs

/-- A value that may nest the given number of levels, after white space. -/
def value? : Nat → List Char → Option (Json × List Char)
  | 0, cs =>
      match skipBlank cs with
      | '[' :: _ => none
      | '\x7b' :: _ => none
      | rest => scalar? rest
  | levels + 1, cs =>
      match skipBlank cs with
      | '[' :: rest => array? (value? levels) rest
      | '\x7b' :: rest => object? (value? levels) rest
      | rest => scalar? rest

/-- Read a document; nothing but white space may follow it. -/
def parse?
    (text : String) :
    Option Json :=
  match value? maxDepth text.toList with
  | some (document, rest) => if (skipBlank rest).isEmpty then some document else none
  | none => none

end Json
end Schemata
