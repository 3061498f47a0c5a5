import Schemata.Resolve.Untagged
import Schemata.Target.SwiftType

/-!
# Swift: reading and writing documents

Each type gets an extension that reads it from a document and writes it to
one.  Local variables of nested lists and dictionaries are numbered by depth.
-/

namespace Schemata
namespace Target
namespace Swift

open Code
open Emit (Member)

/-- The key of a dictionary as it is read from a document. -/
def decodeKey
    (name entry : String) :
    TypeRef → String
  | .primitive p =>
      if p.isInteger then s!"try decode_name({primitiveText p}({entry}.key), name: {name})"
      else s!"{entry}.key"
  | _ => s!"{entry}.key"

/-- The key of a dictionary as it is written to a document. -/
def encodeKey
    (entry : String) :
    TypeRef → String
  | .primitive p => if p.isInteger then s!"String({entry}.key)" else s!"{entry}.key"
  | _ => s!"{entry}.key"

/-- A primitive value read from `value`; `name` is what an error says. -/
def decodePrimitive
    (value name : String) :
    Primitive → String
  | .datetime =>
      s!"try decode_name(unbox({value}, as: String.self)"
        ++ s!".flatMap \x7b ISO8601DateFormatter().date(from: $0) \x7d, name: {name})"
  | .bytes =>
      s!"try decode_name(unbox({value}, as: String.self)"
        ++ s!".flatMap \x7b Data(base64Encoded: $0) \x7d, name: {name})"
  | .any => s!"try decode_name({value} as? AnyHashable, name: {name})"
  | p => s!"try decode_name(unbox({value}, as: {primitiveText p}.self), name: {name})"

/-- An expression that reads a type from `value`; `name` is what an error says. -/
def decodeExpr
    (s : Schema)
    (name : String) :
    Nat → String → TypeRef → String
  | _, value, .primitive p => decodePrimitive value name p
  | _, value, .decl id => s!"try {qualified s id}.decode(json: {value})"
  | depth, value, .array item =>
      let x := s!"v{depth}"
      let body := decodeExpr s name (depth + 1) x item
      s!"try decode_name({value} as? [Any], name: {name}).map \x7b {x} in {body} \x7d"
  | depth, value, .map key item =>
      let m := s!"m{depth}"
      let e := s!"e{depth}"
      let body := decodeExpr s name (depth + 1) s!"{e}.value" item
      s!"try decode_name({value} as? [String: Any], name: {name})"
        ++ s!".reduce(into: [{typeText s key}: {typeText s item}]()) "
        ++ s!"\x7b {m}, {e} in {m}[{decodeKey name e key}] = {body} \x7d"
  | _, value, .tuple _ => value

/-- An expression that writes `value`. -/
def encodeExpr :
    Nat → String → TypeRef → String
  | _, value, .primitive .datetime => s!"ISO8601DateFormatter().string(from: {value})"
  | _, value, .primitive .bytes => s!"{value}.base64EncodedString()"
  | _, value, .primitive .any => s!"{value}.base"
  | _, value, .primitive _ => value
  | _, value, .decl _ => s!"try {value}.encode()"
  | depth, value, .array item =>
      let x := s!"v{depth}"
      s!"try {value}.map \x7b {x} in {encodeExpr (depth + 1) x item} \x7d"
  | depth, value, .map key item =>
      let m := s!"m{depth}"
      let e := s!"e{depth}"
      let body := encodeExpr (depth + 1) s!"{e}.value" item
      s!"try {value}.reduce(into: [String: Any]()) "
        ++ s!"\x7b {m}, {e} in {m}[{encodeKey e key}] = {body} \x7d"
  | _, value, .tuple _ => value

/-- The extension of a type: one function that reads it and one that writes it. -/
def codec
    (name encoded : String)
    (decode encode : Code) :
    Code :=
  blank
    ++ block s!"public extension {name}"
        (block s!"static func decode(json: Any) throws -> {name}" decode
          ++ blank
          ++ block s!"func encode() throws -> {encoded}" encode)

/-- The statement that makes a struct from its local variables. -/
def construct
    (name : String)
    (ms : List Member) :
    Code :=
  let arguments := String.intercalate ", " (ms.map fun m => s!"{m.ident}: v_{m.ident}")
  blank ++ line s!"return {name}({arguments})"

/-- Give up with an error about a missing key. -/
def missing
    (key : String) :
    Code :=
  line s!"throw SerializationError.missing({key})"

/-- Read a property from an object. -/
def decodeMember
    (s : Schema)
    (m : Member) :
    Code :=
  let key := Text.literal m.field.jsonName
  let x := m.ident
  if m.field.optional then
    let value := decodeExpr s key 0 "value" m.field.type
    blank
      ++ line s!"var v_{x}: {propertyType s m.field} = Optional.none"
      ++ blank
      ++ block s!"if let value = json[{key}]"
          (line s!"v_{x} = Optional.some({value})")
  else
    let raw := s!"f_{x}"
    blank
      ++ block s!"guard let {raw} = json[{key}] else" (missing key)
      ++ blank
      ++ line s!"let v_{x} = {decodeExpr s key 0 raw m.field.type}"

/-- Write a property to an object. -/
def encodeMember
    (m : Member) :
    Code :=
  let key := Text.literal m.field.jsonName
  let this := s!"self.{m.ident}"
  if m.field.optional then
    let value := encodeExpr 0 "value" m.field.type
    block s!"if let value = {this}" (line s!"json[{key}] = {value}")
  else line s!"json[{key}] = {encodeExpr 0 this m.field.type}"

/-- The extension of a struct that is an object in documents. -/
def objectCodec
    (s : Schema)
    (name : String)
    (fields : List Field) :
    Code :=
  let ms := properties fields
  codec name "[String: Any]"
    (line "let json = try decode_value(json as? [String: Any])"
      ++ ms.flatMap (decodeMember s)
      ++ construct name ms)
    (line "var json = [String: Any]()"
      ++ blank
      ++ ms.flatMap encodeMember
      ++ blank
      ++ line "return json")

/-- Read a property from an array. -/
def decodeItem
    (s : Schema)
    (m : Member)
    (index : Nat) :
    Code :=
  let key := Text.literal s!"[{index}]"
  let value := decodeExpr s key 0 s!"json[{index}]" m.field.type
  blank
    ++ block s!"guard json.count > {index} else" (missing key)
    ++ blank
    ++ line s!"let v_{m.ident} = {value}"

/-- Write a property to an array. -/
def encodeItem
    (m : Member) :
    Code :=
  let this := s!"self.{m.ident}"
  line s!"json.append({encodeExpr 0 this m.field.type})"

/-- The extension of a struct that is an array in documents. -/
def tupleCodec
    (s : Schema)
    (name : String)
    (fields : List Field) :
    Code :=
  let ms := properties fields
  codec name "[Any]"
    (line "let json = try decode_value(json as? [Any])"
      ++ ms.zipIdx.flatMap (fun (m, index) => decodeItem s m index)
      ++ construct name ms)
    (line "var json = [Any]()"
      ++ blank
      ++ ms.flatMap encodeItem
      ++ blank
      ++ line "return json")

/-- An expression that reads a case. -/
def decodeCase
    (s : Schema)
    (id : DeclId)
    (c : SubType)
    (caseName : String) :
    String :=
  s!"{qualified s id}.{caseName}(try {caseType s id c}.decode(json: json))"

/-- The condition under which an object is read as a case: the keys that it must have. -/
def caseCondition
    (keys : List String) :
    String :=
  let list := String.intercalate ", " (keys.map Text.literal)
  s!"keys.isSuperset(of: [{list}] as [String])"

/-- Find the case of an object and read it. -/
def decodeInterface
    (s : Schema)
    (id : DeclId)
    (body : InterfaceBody) :
    Code :=
  let named := body.subTypes.zip (caseNames body)
  match body.strategy with
  | .tagged tag =>
      let key := Text.literal tag
      line s!"let tag = try decode_name(json[{key}] as? String, name: {key})"
        ++ blank
        ++ block "switch tag"
            ((named.flatMap fun (c, name) =>
                line s!"case {Text.literal c.literal}:"
                  ++ line s!"  return {decodeCase s id c name}")
              ++ line "default:"
              ++ line "  throw SerializationError.invalid(tag)")
  | .untagged =>
      line "let keys = Set(json.keys)"
        ++ (named.flatMap fun (c, name) =>
              blank
                ++ block s!"if {caseCondition (Untagged.requiredKeys body c)}"
                    (line s!"return {decodeCase s id c name}"))
        ++ blank
        ++ line "throw SerializationError.invalid(\x22no sub-type matches the fields present\x22)"

/-- Write a case. -/
def encodeCase
    (strategy : Strategy)
    (c : SubType)
    (caseName : String) :
    Code :=
  line s!"case .{caseName}(let s):" ++
    match strategy with
    | .tagged tag =>
        line "  var json = try s.encode()"
          ++ line s!"  json[{Text.literal tag}] = {Text.literal c.literal}"
          ++ line "  return json"
    | .untagged => line "  return try s.encode()"

/-- The extension of an interface. -/
def interfaceCodec
    (s : Schema)
    (id : DeclId)
    (body : InterfaceBody) :
    Code :=
  codec (qualified s id) "[String: Any]"
    (line "let json = try decode_value(json as? [String: Any])"
      ++ blank
      ++ decodeInterface s id body)
    (block "switch self"
      ((body.subTypes.zip (caseNames body)).flatMap fun (c, name) =>
        encodeCase body.strategy c name))

/-- The extension of an enum. -/
def enumCodec
    (name : String)
    (type : EnumType)
    (members : List EnumMember) :
    Code :=
  let named := members.zip (enumCaseNames members)
  let raw := primitiveText type.primitive
  codec name raw
    (line s!"let value = try decode_value(unbox(json, as: {raw}.self))"
      ++ blank
      ++ block "switch value"
          ((named.flatMap fun (m, caseName) =>
              line s!"case {valueText m.value}:" ++ line s!"  return {name}.{caseName}")
            ++ line "default:"
            ++ line "  throw SerializationError.bad_value"))
    (switchSelf (named.map fun (m, caseName) => (s!".{caseName}", valueText m.value)))

/-- The extensions of a declaration. -/
def extensions
    (s : Schema)
    (id : DeclId) :
    Code :=
  match (s.decl id).body with
  | .type fields => objectCodec s (qualified s id) fields
  | .tuple fields => tupleCodec s (qualified s id) fields
  | .interface body =>
      interfaceCodec s id body
        ++ body.subTypes.flatMap fun c => objectCodec s (caseType s id c) (body.fieldsOf c)
  | .enum type members => enumCodec (qualified s id) type members
  | .service _ => []

end Swift
end Target
end Schemata
