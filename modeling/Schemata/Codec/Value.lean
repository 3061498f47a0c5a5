import Schemata.Json.Basic
import Schemata.Schema.Basic

/-!
# Values of schema types

What a document means for a type.  Records have one slot for each field, in
the order of the declaration, so that values of documents with other orders of
keys are equal.
-/

namespace Schemata

/-- A value of a schema type. -/
inductive Value where
  | boolean (value : Bool)
  | string (value : String)
  | integer (value : Int)
  | float (value : Decimal.Double)
  /-- Any document, kept as it is. -/
  | any (document : Json)
  | array (items : List Value)
  | map (entries : List (Value × Value))
  | tuple (items : List Value)
  /-- A value of a type, a tuple, or a case of an interface; absent fields have no value. -/
  | record (decl : DeclId) (subType : Option Nat) (fields : List (Option Value))
  | enum (decl : DeclId) (member : Nat)
deriving Repr

/-- A step into a document. -/
inductive PathStep where
  | key (name : String)
  | index (position : Nat)
deriving DecidableEq, Repr

/-- The way to a part of a document, outermost step first. -/
abbrev DocumentPath := List PathStep

/-- The written form of a step. -/
def PathStep.display : PathStep → String
  | key name => "." ++ name
  | index position => s!"[{position}]"

/-- The written form of a way. -/
def DocumentPath.display
    (path : DocumentPath) :
    String :=
  "$" ++ String.join (path.map PathStep.display)

/-- What is wrong with a part of a document. -/
inductive DecodeProblem where
  | missingField (field : String)
  | missingItem (index : Nat)
  | unknownVariant (literal : String)
  | noMatchingValue (decl value : String)
  | noMatchingSubType (decl : String)
  | unexpectedType (expected found : String)
  | outOfRange (value : Int) (type : Primitive)
  | notData (decl kind : String)
deriving DecidableEq, Repr

/-- Why a document has no value of a type. -/
structure DecodeError where
  path : DocumentPath
  problem : DecodeProblem
deriving DecidableEq, Repr

/-- Message of a problem. -/
def DecodeProblem.message : DecodeProblem → String
  | missingField field => s!"missing field `{field}`"
  | missingItem index => s!"missing field `{index}`"
  | unknownVariant literal => s!"unknown variant {Text.shown literal}"
  | noMatchingValue decl value => s!"no member of `{decl}` has the value {value}"
  | noMatchingSubType decl => s!"no sub-type of `{decl}` matches the fields present"
  | unexpectedType expected found => s!"expected {expected}, found {found}"
  | outOfRange value type => s!"{value} is out of range for {type.name}"
  | notData decl kind => s!"`{decl}` is a {kind} and has no JSON representation"

/-- Message of an error of decoding. -/
def DecodeError.message
    (e : DecodeError) :
    String :=
  DocumentPath.display e.path ++ ": " ++ e.problem.message

/-- What is wrong with a part of a value. -/
inductive EncodeProblem where
  | missingField (field : String)
  | invalid (message : String)
deriving DecidableEq, Repr

/-- Why a value has no document. -/
structure EncodeError where
  path : DocumentPath
  problem : EncodeProblem
deriving DecidableEq, Repr

/-- Message of an error of encoding. -/
def EncodeError.message
    (e : EncodeError) :
    String :=
  DocumentPath.display e.path ++ ": " ++
    match e.problem with
    | .missingField field => s!"required field `{field}` has no value"
    | .invalid message => message

end Schemata
