import Schemata.Codec.Value
import Schemata.Decimal.Notation
import Schemata.Schema.Lookup

/-!
# Encoding values

A value becomes a document whose keys follow the order of the declaration; the
tag of an interface comes first or last, as the placement says.  A value that
does not fit the schema is an error with the place where it does not.
-/

namespace Schemata
namespace Codec

/-- Fail at a place with a message. -/
def invalid
    {α : Type}
    (path : DocumentPath)
    (message : String) :
    Except EncodeError α :=
  .error ⟨path, .invalid message⟩

/-- A whole number that fits 64 bits, signed or unsigned. -/
def encodeInteger
    (value : Int)
    (path : DocumentPath) :
    Except EncodeError Json :=
  if -9223372036854775808 ≤ value ∧ value ≤ 18446744073709551615 then .ok (.integer value)
  else invalid path s!"{value} does not fit in 64 bits"

/-- A finite double. -/
def encodeDouble
    (value : Decimal.Double)
    (path : DocumentPath) :
    Except EncodeError Json :=
  if value.isFinite then .ok (.float value)
  else invalid path s!"{value.display} is not a finite number"

/-- The key of an entry of a map. -/
def encodeKey
    (key : Value)
    (path : DocumentPath) :
    Except EncodeError String :=
  match key with
  | .string name => .ok name
  | .integer n => .ok (toString n)
  | _ => invalid path "map keys must be strings or integers"

/-- The document of a member of an enum. -/
def encodeMember
    (s : Schema)
    (id : DeclId)
    (member : Nat)
    (path : DocumentPath) :
    Except EncodeError Json :=
  match (s.decl id).body with
  | .enum _ members =>
      match members[member]? with
      | some m =>
          match m.value with
          | .string text => .ok (.string text)
          | .number n => encodeInteger n path
      | none => invalid path s!"`{s.displayName id}` has no member #{member}"
  | _ => invalid path s!"`{s.displayName id}` is not an enum"

/-- How a record is written: which fields its slots are for, as an array or as an object, and what
comes before and after the fields. -/
inductive Layout where
  | array (fields : List Field)
  | object (before : List (String × Json)) (fields : List Field) (after : Option (String × Json))

/-- The layout of a case of an interface. -/
def caseLayout
    (placement : Placement)
    (body : InterfaceBody)
    (c : SubType) :
    Layout :=
  match body.strategy with
  | .untagged => .object [] (body.fieldsOf c) none
  | .tagged tag =>
      match placement with
      | .first => .object [(tag, .string c.literal)] (body.fieldsOf c) none
      | .last => .object [] (body.fieldsOf c) (some (tag, .string c.literal))

/-- The layout of a record. -/
def layout
    (s : Schema)
    (placement : Placement)
    (id : DeclId)
    (subType : Option Nat)
    (path : DocumentPath) :
    Except EncodeError Layout :=
  match (s.decl id).body, subType with
  | .type fields, none => .ok (.object [] fields none)
  | .tuple fields, none => .ok (.array fields)
  | .interface body, some index =>
      match body.subTypes[index]? with
      | some c => .ok (caseLayout placement body c)
      | none => invalid path s!"`{s.displayName id}` has no sub-type #{index}"
  | _, _ => invalid path s!"value does not have the shape of `{s.displayName id}`"

/-- There is one slot for each field. -/
def checkArity
    (expected found : Nat)
    (path : DocumentPath) :
    Except EncodeError Unit :=
  if expected = found then .ok ()
  else invalid path s!"expected {expected} fields, found {found}"

section Encode

variable (s : Schema)
variable (placement : Placement)

mutual

/-- Encode a value at a place. -/
def encodeAt : Value → DocumentPath → Except EncodeError Json
  | .boolean value, _ => .ok (.bool value)
  | .string value, _ => .ok (.string value)
  | .integer value, path => encodeInteger value path
  | .float value, path => encodeDouble value path
  | .any document, _ => .ok document
  | .array items, path => do return .array (← encodeItems items path 0)
  | .tuple items, path => do return .array (← encodeItems items path 0)
  | .map entries, path => do return .object (← encodeEntries entries path [])
  | .record id subType slots, path => do
      match ← layout s placement id subType path with
      | .array fields =>
          checkArity fields.length slots.length path
          return .array (← encodePositions slots path fields 0)
      | .object before fields after =>
          checkArity fields.length slots.length path
          let entries ← encodeFields slots path fields before
          match after with
          | some (tag, literal) => return .object (Json.insert entries tag literal)
          | none => return .object entries
  | .enum id member, path => encodeMember s id member path

/-- Encode items from a position on. -/
def encodeItems : List Value → DocumentPath → Nat → Except EncodeError (List Json)
  | [], _, _ => .ok []
  | item :: rest, path, index => do
      let document ← encodeAt item (path ++ [.index index])
      return document :: (← encodeItems rest path (index + 1))

/-- Encode the entries of a map into an object. -/
def encodeEntries :
    List (Value × Value) → DocumentPath → List (String × Json) →
    Except EncodeError (List (String × Json))
  | [], _, object => .ok object
  | (key, value) :: rest, path, object => do
      let name ← encodeKey key path
      let document ← encodeAt value (path ++ [.key name])
      encodeEntries rest path (Json.insert object name document)

/-- Encode the slots of a tuple from a position on. -/
def encodePositions :
    List (Option Value) → DocumentPath → List Field → Nat → Except EncodeError (List Json)
  | some value :: slots, path, _ :: fields, index => do
      let document ← encodeAt value (path ++ [.index index])
      return document :: (← encodePositions slots path fields (index + 1))
  | none :: slots, path, f :: fields, index =>
      if f.optional then do
        return .null :: (← encodePositions slots path fields (index + 1))
      else .error ⟨path, .missingField f.name⟩
  | _, _, _, _ => .ok []

/-- Encode the slots of an object. -/
def encodeFields :
    List (Option Value) → DocumentPath → List Field → List (String × Json) →
    Except EncodeError (List (String × Json))
  | some value :: slots, path, f :: fields, object => do
      let document ← encodeAt value (path ++ [.key f.jsonName])
      encodeFields slots path fields (Json.insert object f.jsonName document)
  | none :: slots, path, f :: fields, object =>
      if f.optional then encodeFields slots path fields object
      else .error ⟨path, .missingField f.name⟩
  | _, _, _, object => .ok object

end

/-- Encode a value. -/
def encode
    (value : Value) :
    Except EncodeError Json :=
  encodeAt s placement value []

end Encode

end Codec
end Schemata
