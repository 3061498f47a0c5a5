import Schemata.Codec.Value
import Schemata.Json.Printer
import Schemata.Number
import Schemata.Schema.Lookup

/-!
# Decoding documents

Types decode from objects: required keys must be present and not null, and
unknown keys are ignored.  Tuples decode from arrays by position, and further
items are ignored.  The case of an interface is told by its tag or, without
one, is the first whose required keys are all present.  Enums match the values
of their members in order.

The rules are stated once, in `View.decode`, for a document whose parts come
with their decoders; `decode` supplies these by recursion on the document.
-/

namespace Schemata
namespace Codec

/-- A way to decode one document as values of types. -/
abbrev Decoder := TypeRef → DocumentPath → Except DecodeError Value

/-- A part of a document: the part itself and how it is decoded. -/
structure Part where
  document : Json
  decoder : Decoder

/-- A document whose parts come with their decoders. -/
inductive View where
  | scalar (document : Json)
  | array (items : List Part)
  | object (entries : List (String × Part))

section Scalars

/-- Fail at a place. -/
def fail
    {α : Type}
    (path : DocumentPath)
    (problem : DecodeProblem) :
    Except DecodeError α :=
  .error ⟨path, problem⟩

/-- A whole number in the range of an integer type. -/
def checkedInteger
    (type : Primitive)
    (value : Int)
    (path : DocumentPath) :
    Except DecodeError Value :=
  match type.range? with
  | none => .ok (.integer value)
  | some (least, greatest) =>
      if value < least ∨ greatest < value then fail path (.outOfRange value type)
      else .ok (.integer value)

/-- Decode a document as a primitive type. -/
def decodePrimitive
    (type : Primitive)
    (document : Json)
    (path : DocumentPath) :
    Except DecodeError Value :=
  match type with
  | .any => .ok (.any document)
  | .boolean =>
      match document with
      | .bool b => .ok (.boolean b)
      | _ => fail path (.unexpectedType "boolean" document.kind)
  | .string | .datetime | .bytes =>
      match document with
      | .string s => .ok (.string s)
      | _ => fail path (.unexpectedType "string" document.kind)
  | .float | .double =>
      match document with
      | .integer n => .ok (.float (Decimal.Double.ofInt n))
      | .float d => .ok (.float d)
      | _ => fail path (.unexpectedType "number" document.kind)
  | .u32 | .u64 | .i32 | .i64 =>
      match document with
      | .integer n => checkedInteger type n path
      | _ => fail path (.unexpectedType "integer" document.kind)

/-- The whole number that a key spells: an optional sign and digits, of at most 128 bits. -/
def keyInteger?
    (key : String) :
    Option Int :=
  let (negative, digits) :=
    match key.toList with
    | '-' :: rest => (true, rest)
    | '+' :: rest => (false, rest)
    | rest => (false, rest)
  if Text.isDigits digits then
    let size : Int := Text.digitsValue digits
    let value := if negative then -size else size
    if Number.least ≤ value ∧ value ≤ Number.greatest then some value else none
  else none

/-- Decode a key of a map. -/
def decodeKey
    (type : TypeRef)
    (key : String)
    (path : DocumentPath) :
    Except DecodeError Value :=
  match type with
  | .primitive p =>
      if p.isInteger then
        match keyInteger? key with
        | some n => checkedInteger p n path
        | none => fail path (.unexpectedType "integer key" "string")
      else .ok (.string key)
  | _ => .ok (.string key)

end Scalars

section Parts

/-- The part under a key, unless it is null. -/
def present?
    (entries : List (String × Part))
    (key : String) :
    Option Part :=
  match entries.lookup key with
  | some part =>
      match part.document with
      | .null => none
      | _ => some part
  | none => none

/-- Decode the items of an array from a position on. -/
def decodeItems
    (type : TypeRef)
    (path : DocumentPath) :
    Nat → List Part → Except DecodeError (List Value)
  | _, [] => .ok []
  | index, part :: rest => do
      let value ← part.decoder type (path ++ [.index index])
      return value :: (← decodeItems type path (index + 1) rest)

/-- Decode the entries of a map. -/
def decodeEntries
    (key value : TypeRef)
    (path : DocumentPath) :
    List (String × Part) → Except DecodeError (List (Value × Value))
  | [] => .ok []
  | (name, part) :: rest => do
      let k ← decodeKey key name (path ++ [.key name])
      let v ← part.decoder value (path ++ [.key name])
      return (k, v) :: (← decodeEntries key value path rest)

/-- Decode an item for each type, from a position on. -/
def decodeTuple
    (path : DocumentPath) :
    Nat → List TypeRef → List Part → Except DecodeError (List Value)
  | _, [], _ => .ok []
  | index, _ :: _, [] => fail path (.missingItem index)
  | index, type :: types, part :: parts => do
      let value ← part.decoder type (path ++ [.index index])
      return value :: (← decodeTuple path (index + 1) types parts)

/-- Decode an item for each field of a tuple, from a position on. -/
def decodePositions
    (path : DocumentPath) :
    Nat → List Field → List Part → Except DecodeError (List (Option Value))
  | _, [], _ => .ok []
  | index, f :: fields, [] =>
      if f.optional then do
        return none :: (← decodePositions path (index + 1) fields [])
      else fail path (.missingItem index)
  | index, f :: fields, part :: parts =>
      match f.optional, part.document with
      | true, .null => do
          return none :: (← decodePositions path (index + 1) fields parts)
      | _, _ => do
          let value ← part.decoder f.type (path ++ [.index index])
          return some value :: (← decodePositions path (index + 1) fields parts)

/-- Decode the fields of an object. -/
def decodeFields
    (path : DocumentPath)
    (entries : List (String × Part)) :
    List Field → Except DecodeError (List (Option Value))
  | [] => .ok []
  | f :: fields =>
      match present? entries f.jsonName with
      | some part => do
          let value ← part.decoder f.type (path ++ [.key f.jsonName])
          return some value :: (← decodeFields path entries fields)
      | none =>
          if f.optional then do
            return none :: (← decodeFields path entries fields)
          else fail path (.missingField f.jsonName)

end Parts

section Declarations

/-- The case with a literal, told by the tag. -/
def taggedCase
    (body : InterfaceBody)
    (tag : String)
    (path : DocumentPath)
    (entries : List (String × Part)) :
    Except DecodeError Nat :=
  match present? entries tag with
  | none => fail path (.missingField tag)
  | some part =>
      match part.document with
      | .string literal =>
          match body.subTypes.findIdx? (·.literal == literal) with
          | some index => .ok index
          | none => fail path (.unknownVariant literal)
      | other => fail (path ++ [.key tag]) (.unexpectedType "string" other.kind)

/-- The document has all keys that a case requires. -/
def hasRequired
    (body : InterfaceBody)
    (entries : List (String × Part))
    (s : SubType) :
    Bool :=
  ((body.fieldsOf s).filter (·.isRequired)).all fun f => (present? entries f.jsonName).isSome

/-- The first case whose required keys are present. -/
def untaggedCase?
    (body : InterfaceBody)
    (entries : List (String × Part)) :
    Option Nat :=
  body.subTypes.findIdx? (hasRequired body entries)

/-- Decode the fields of a case of an interface. -/
def decodeCase
    (body : InterfaceBody)
    (id : DeclId)
    (index : Nat)
    (path : DocumentPath)
    (entries : List (String × Part)) :
    Except DecodeError Value :=
  let fields := match body.subTypes[index]? with
    | some s => body.fieldsOf s
    | none => []
  (decodeFields path entries fields).map (.record id (some index))

/-- The document is the value of a member. -/
def enumMatches
    (document : Json)
    (m : EnumMember) :
    Bool :=
  match m.value, document with
  | .string text, .string s => text == s
  | .number n, .integer k => n == k
  | _, _ => false

/-- The kind of documents that the values of an enum have. -/
def enumKind : EnumType → String
  | .string => "string"
  | _ => "integer"

/-- The document is of the kind of the values of an enum. -/
def isEnumKind
    (type : EnumType)
    (document : Json) :
    Bool :=
  match type, document with
  | .string, .string _ => true
  | .string, _ => false
  | _, .integer _ => true
  | _, .float _ => true
  | _, _ => false

/-- Decode a document as a member of an enum. -/
def decodeEnum
    (s : Schema)
    (id : DeclId)
    (type : EnumType)
    (members : List EnumMember)
    (document : Json)
    (path : DocumentPath) :
    Except DecodeError Value :=
  if isEnumKind type document then
    match members.findIdx? (enumMatches document) with
    | some member => .ok (.enum id member)
    | none => fail path (.noMatchingValue (s.displayName id) document.compact)
  else fail path (.unexpectedType (enumKind type) document.kind)

end Declarations

namespace View

/-- The document that is viewed. -/
def document : View → Json
  | scalar document => document
  | array items => .array (items.map (·.document))
  | object entries => .object (entries.map fun (key, part) => (key, part.document))

/-- The items of an array. -/
def asArray
    (v : View)
    (path : DocumentPath) :
    Except DecodeError (List Part) :=
  match v with
  | array items => .ok items
  | _ => fail path (.unexpectedType "array" v.document.kind)

/-- The entries of an object. -/
def asObject
    (v : View)
    (path : DocumentPath) :
    Except DecodeError (List (String × Part)) :=
  match v with
  | object entries => .ok entries
  | _ => fail path (.unexpectedType "object" v.document.kind)

/-- Decode a document as a declaration. -/
def decodeDecl
    (s : Schema)
    (v : View)
    (id : DeclId)
    (path : DocumentPath) :
    Except DecodeError Value :=
  match (s.decl id).body with
  | .type fields => do
      let entries ← v.asObject path
      return .record id none (← decodeFields path entries fields)
  | .tuple fields => do
      let items ← v.asArray path
      return .record id none (← decodePositions path 0 fields items)
  | .interface body => do
      let entries ← v.asObject path
      match body.strategy with
      | .tagged tag =>
          let index ← taggedCase body tag path entries
          decodeCase body id index path entries
      | .untagged =>
          match untaggedCase? body entries with
          | some index => decodeCase body id index path entries
          | none => fail path (.noMatchingSubType (s.displayName id))
  | .enum type members => decodeEnum s id type members v.document path
  | .service _ => fail path (.notData (s.displayName id) (s.decl id).body.kind)

/-- Decode a document as a type. -/
def decode
    (s : Schema)
    (v : View) :
    Decoder
  | .primitive type, path => decodePrimitive type v.document path
  | .decl id, path => v.decodeDecl s id path
  | .array item, path => do
      return .array (← decodeItems item path 0 (← v.asArray path))
  | .map key value, path => do
      return .map (← decodeEntries key value path (← v.asObject path))
  | .tuple types, path => do
      return .tuple (← decodeTuple path 0 types (← v.asArray path))

end View

mutual

/-- The view of a document. -/
def view
    (s : Schema) :
    Json → View
  | .array items => .array (viewItems s items)
  | .object entries => .object (viewEntries s entries)
  | document => .scalar document

/-- The views of the items of an array. -/
def viewItems
    (s : Schema) :
    List Json → List Part
  | [] => []
  | item :: rest => ⟨item, (view s item).decode s⟩ :: viewItems s rest

/-- The views of the entries of an object. -/
def viewEntries
    (s : Schema) :
    List (String × Json) → List (String × Part)
  | [] => []
  | (key, value) :: rest => (key, ⟨value, (view s value).decode s⟩) :: viewEntries s rest

end

/-- Decode a document as a type. -/
def decode
    (s : Schema)
    (document : Json)
    (type : TypeRef) :
    Except DecodeError Value :=
  (view s document).decode s type []

end Codec
end Schemata
