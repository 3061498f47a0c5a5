import Schemata.Decimal.Double

/-!
# JSON documents

Objects keep their keys in order; each key stands once.  A number is a whole
number or a double.
-/

namespace Schemata

/-- A JSON document. -/
inductive Json where
  | null
  | bool (value : Bool)
  | integer (value : Int)
  | float (value : Decimal.Double)
  | string (value : String)
  | array (items : List Json)
  | object (entries : List (String × Json))
deriving Repr

namespace Json

/-- How messages name the kind of a document. -/
def kind : Json → String
  | null => "null"
  | bool _ => "boolean"
  | integer _ | float _ => "number"
  | string _ => "string"
  | array _ => "array"
  | object _ => "object"

/-- Set a key: a key that is present keeps its place, a new one comes last. -/
def insert
    (entries : List (String × Json))
    (key : String)
    (value : Json) :
    List (String × Json) :=
  match entries with
  | [] => [(key, value)]
  | (k, v) :: rest =>
      if k == key then (k, value) :: rest
      else (k, v) :: insert rest key value

/-- The whole number that a document is. -/
def integer? : Json → Option Int
  | integer n => some n
  | _ => none

end Json

end Schemata
