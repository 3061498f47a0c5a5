import Schemata.Emit.Code
import Schemata.Resolve.Untagged
import Schemata.Target.JavaScriptExpr

/-!
# JavaScript: members of classes

A class reads itself from a document, writes itself to one, and compares,
hashes and shows itself by its properties.
-/

namespace Schemata
namespace Target
namespace JavaScript

open Code
open Emit (Member)

/-- The constructor of a class. -/
def constructor
    (idents : List String) :
    Code :=
  let list := String.intercalate ", " idents
  block s!"constructor({list})" (lines (idents.map fun x => s!"this.{x} = {x};"))

/-- The comparison of objects. -/
def equalsMethod
    (name : String)
    (ms : List Member) :
    Code :=
  let differ := line "return false;"
  block "equals(other)" <|
    block s!"if (!(other instanceof {name}))" differ
      ++ (ms.flatMap fun m =>
            blank ++ block s!"if (!_equals(this.{m.ident}, other.{m.ident}))" differ)
      ++ blank
      ++ line "return true;"

/-- The hash of an object. -/
def hashMethod
    (ms : List Member) :
    Code :=
  block "hashCode()" <|
    line "let result = 1;"
      ++ lines (ms.map fun m => s!"result = (result * 31 + _hash(this.{m.ident})) | 0;")
      ++ line "return result;"

/-- The text of an object. -/
def toStringMethod
    (name : String)
    (ms : List Member) :
    Code :=
  let parts := ms.map fun m => s!"\x22{m.field.name}=\x22 + String(this.{m.ident})"
  let shown := String.intercalate " + \", \" + " parts
  block "toString()" <|
    if ms.isEmpty then line s!"return \x22{name}()\x22;"
    else line s!"return \x22{name}(\x22 + {shown} + \x22)\x22;"

/-- What every class has that holds values. -/
def valueMembers
    (name : String)
    (ms : List Member) :
    Code :=
  blank
    ++ equalsMethod name ms
    ++ blank
    ++ hashMethod ms
    ++ blank
    ++ toStringMethod name ms

/-- The statement that makes an object from local variables. -/
def construct
    (name : String)
    (ms : List Member) :
    Code :=
  let locals := String.intercalate ", " (ms.map localName)
  blank ++ line s!"return new {name}({locals});"

/-- Read a property from an object. -/
def decodeMember
    (s : Schema)
    (home : Nat)
    (m : Member) :
    Code :=
  let key := Text.literal m.field.jsonName
  let x := localName m
  let assign := line s!"{x} = {decodeExpr s home key 0 x m.field.type};"
  blank
    ++ line s!"let {x} = data[{key}];"
    ++ blank
    ++ if m.field.optional then
        twoBlocks s!"if (_present(data, {key}))" assign "else" (line s!"{x} = null;")
      else
        block s!"if (!_present(data, {key}))"
            (line s!"throw new Error({key} + \x22: required field\x22);")
          ++ blank
          ++ assign

/-- Write a property to an object. -/
def encodeMember
    (m : Member) :
    Code :=
  let key := Text.literal m.field.jsonName
  let x := s!"this.{m.ident}"
  let put := line s!"data[{key}] = {encodeExpr 0 x m.field.type};"
  blank
    ++ if m.field.optional then block s!"if ({x} !== null && {x} !== undefined)" put
      else
        block s!"if ({x} === null || {x} === undefined)"
            (line s!"throw new Error({key} + \x22: is a required field\x22);")
          ++ blank
          ++ put

/-- The tag of a case and its literal. -/
structure TagValue where
  tag : String
  literal : String

/-- Write the tag, if there is one and this is its place. -/
def encodeTag
    (placement here : Placement) :
    Option TagValue → Code
  | some t =>
      if placement = here then
        blank ++ line s!"data[{Text.literal t.tag}] = {Text.literal t.literal};"
      else []
  | none => []

/-- The members of a class that is an object in documents. -/
def objectMembers
    (s : Schema)
    (placement : Placement)
    (home : Nat)
    (name : String)
    (tag : Option TagValue)
    (fields : List Field) :
    Code :=
  let ms := properties fields
  constructor (ms.map (·.ident))
    ++ blank
    ++ block "static decode(data)"
        (line s!"_object({Text.literal name}, data);"
          ++ ms.flatMap (decodeMember s home)
          ++ construct name ms)
    ++ blank
    ++ block "encode()"
        (line "const data = \x7b\x7d;"
          ++ encodeTag placement .first tag
          ++ ms.flatMap encodeMember
          ++ encodeTag placement .last tag
          ++ blank
          ++ line "return data;")
    ++ valueMembers name ms

/-- Read a property from an array. -/
def decodeItem
    (s : Schema)
    (home : Nat)
    (m : Member)
    (index : Nat) :
    Code :=
  let key := Text.literal s!"[{index}]"
  let value := decodeExpr s home key 0 s!"data[{index}]" m.field.type
  blank
    ++ block s!"if (data.length <= {index})"
        (line s!"throw new Error({key} + \x22: required field\x22);")
    ++ blank
    ++ line s!"const {localName m} = {value};"

/-- The members of a class that is an array in documents. -/
def tupleMembers
    (s : Schema)
    (home : Nat)
    (name : String)
    (fields : List Field) :
    Code :=
  let ms := properties fields
  let values := ms.map fun m => encodeExpr 0 s!"this.{m.ident}" m.field.type
  let list := String.intercalate ", " values
  constructor (ms.map (·.ident))
    ++ blank
    ++ block "static decode(data)"
        (block "if (!Array.isArray(data))"
            (line s!"_fail({Text.literal name}, \x22array\x22, data);")
          ++ ms.zipIdx.flatMap (fun (m, index) => decodeItem s home m index)
          ++ construct name ms)
    ++ blank
    ++ block "encode()" (line s!"return [{list}];")
    ++ valueMembers name ms

/-- The condition under which an object is read as a case: the keys that it must have. -/
def caseCondition
    (keys : List String) :
    String :=
  if keys.isEmpty then "true"
  else String.intercalate " && " (keys.map fun key => s!"_present(data, {Text.literal key})")

/-- Find the case of an object and read it. -/
def decodeInterface
    (s : Schema)
    (id : DeclId)
    (body : InterfaceBody) :
    Code :=
  let read := fun (c : SubType) => s!"return {classPath s id}.{typeIdent c.name}.decode(data);"
  match body.strategy with
  | .tagged tag =>
      line s!"const tag = data[{Text.literal tag}];"
        ++ blank
        ++ block "switch (tag)"
            ((body.subTypes.flatMap fun c =>
                line s!"case {Text.literal c.literal}:" ++ line s!"  {read c}")
              ++ line "default:"
              ++ line "  throw new Error(\x22unknown variant: \x22 + JSON.stringify(tag));")
  | .untagged =>
      let message := Text.literal s!"{s.displayName id}: no sub-type matches the fields present"
      (body.subTypes.flatMap fun c =>
          block s!"if ({caseCondition (Untagged.requiredKeys body c)})" (line (read c)) ++ blank)
        ++ line s!"throw new Error({message});"

/-- The members of the class of an interface. -/
def interfaceMembers
    (s : Schema)
    (id : DeclId)
    (name : String)
    (body : InterfaceBody) :
    Code :=
  block "static decode(data)" <|
    line s!"_object({Text.literal name}, data);" ++ blank ++ decodeInterface s id body

/-- The members of the class of an enum. -/
def enumMembers
    (name : String) :
    Code :=
  let unknown := Text.literal s!"{name}: no value matching: "
  constructor ["name", "value"]
    ++ blank
    ++ block "static decode(data)"
        (block s!"for (const member of {name}.values)"
            (block "if (member.value === data)" (line "return member;"))
          ++ blank
          ++ line s!"throw new Error({unknown} + JSON.stringify(data));")
    ++ blank
    ++ block "encode()" (line "return this.value;")
    ++ blank
    ++ block "hashCode()" (line "return _hash(this.name);")
    ++ blank
    ++ block "toString()" (line "return this.name;")

/-- The members of an enum, as static members of its class. -/
def enumValues
    (path : String)
    (members : List EnumMember) :
    Code :=
  let idents := Naming.Language.javascript.spellAll .upperCamel (members.map (·.name))
  let list := String.intercalate ", " (idents.map fun ident => s!"{path}.{ident}")
  blank
    ++ lines ((members.zip idents).map fun (m, ident) =>
        s!"{path}.{ident} = new {path}({Text.literal m.name}, {valueText m.value});")
    ++ line s!"{path}.values = [{list}];"

end JavaScript
end Target
end Schemata
