import Schemata.Emit.Code
import Schemata.Target.CSharpName
import Schemata.Text.Quoted

/-!
# C#: members of classes

A class has read-only properties, one constructor, and comparison, hash and
text over all its properties.
-/

namespace Schemata
namespace Target
namespace CSharp

open Code
open Emit (Member)

/-- The serialization of a property. -/
def jsonProperty
    (f : Field) :
    String :=
  let key := Text.literal f.jsonName
  if f.optional then s!"[JsonProperty({key})]"
  else s!"[JsonProperty({key}, Required = Required.Always)]"

/-- A statement that gives up a comparison. -/
def differ : Code :=
  line "return false;"

/-- A property. -/
def property
    (s : Schema)
    (home : Nat)
    (m : Member) :
    Code :=
  let type := propertyType s home m.field
  doc "///" m.field.doc
    ++ line (jsonProperty m.field)
    ++ block s!"public {type} {m.ident}" (line "get;")
    ++ blank

/-- The parameters of a constructor, all but the last followed by a comma. -/
def parameters
    (s : Schema)
    (home : Nat) :
    List Member → List String
  | [] => []
  | m :: rest =>
      let comma := if rest.isEmpty then "" else ","
      let type := propertyType s home m.field
      s!"{jsonProperty m.field} {type} {m.ident}{comma}" :: parameters s home rest

/-- The constructor of a class. -/
def constructor
    (s : Schema)
    (home : Nat)
    (name baseCall : String)
    (ms : List Member) :
    Code :=
  line "[JsonConstructor]" ++
    if ms.isEmpty then block s!"public {name}(){baseCall}" []
    else
      line s!"public {name}("
        ++ indented (lines (parameters s home ms))
        ++ block s!"){baseCall}" (lines (ms.map fun m => s!"this.{m.ident} = {m.ident};"))

/-- The condition under which a property that is not null has the value of another object. -/
def equalCondition
    (s : Schema)
    (m : Member) :
    String :=
  let x := m.ident
  match shape s m.field.type with
  | .value | .object => s!"this.{x}.Equals(o.{x})"
  | .sequence => s!"this.{x}.SequenceEqual(o.{x})"
  | .dictionary => s!"this.{x}.Count == o.{x}.Count && !this.{x}.Except(o.{x}).Any()"

/-- The comparison of one property. -/
def equalMember
    (s : Schema)
    (m : Member) :
    Code :=
  let x := m.ident
  let equal := equalCondition s m
  let compare :=
    if shape s m.field.type == .value then block s!"if (!{equal})" differ
    else
      twoBlocks s!"if (this.{x} == null)" (block s!"if (o.{x} != null)" differ)
        "else" (block s!"if (!({equal}))" differ)
  compare ++ blank

/-- The comparison of objects. -/
def equalsMethod
    (s : Schema)
    (name : String)
    (ms : List Member) :
    Code :=
  block "public override bool Equals(Object other)" <|
    line s!"{name} o = other as {name};"
      ++ blank
      ++ block "if (o == null)" differ
      ++ blank
      ++ ms.flatMap (equalMember s)
      ++ line "return true;"

/-- The hash of one property. -/
def hashTerm
    (s : Schema)
    (m : Member) :
    String :=
  let x := m.ident
  match shape s m.field.type, m.field.type with
  | .value, _ => s!"this.{x}.GetHashCode()"
  | .sequence, .primitive .bytes => s!"(this.{x} == null ? 0 : this.{x}.Length)"
  | .sequence, _ | .dictionary, _ => s!"(this.{x} == null ? 0 : this.{x}.Count)"
  | .object, _ => s!"(this.{x} == null ? 0 : this.{x}.GetHashCode())"

/-- The hash of an object. -/
def hashMethod
    (s : Schema)
    (ms : List Member) :
    Code :=
  block "public override int GetHashCode()" <|
    line "int result = 1;"
      ++ lines (ms.map fun m => s!"result = result * 31 + {hashTerm s m};")
      ++ line "return result;"

/-- A statement that appends a fixed text. -/
def appendText
    (text : String) :
    Code :=
  line s!"b.Append({Text.literal text});"

/-- The statements that append one property, after a comma unless it is the first. -/
def appendMember
    (m : Member)
    (index : Nat) :
    Code :=
  (if index = 0 then [] else appendText ", ")
    ++ appendText s!"{m.field.name}="
    ++ line s!"b.Append(this.{m.ident});"

/-- The text of an object. -/
def toStringMethod
    (display : String)
    (ms : List Member) :
    Code :=
  block "public override String ToString()" <|
    line "StringBuilder b = new StringBuilder();"
      ++ blank
      ++ appendText s!"{display}("
      ++ ms.zipIdx.flatMap (fun (m, index) => appendMember m index)
      ++ appendText ")"
      ++ blank
      ++ line "return b.ToString();"

/-- All members of a class that has the fields of a record. -/
def classMembers
    (s : Schema)
    (home : Nat)
    (display name baseCall : String)
    (fields : List Field) :
    Code :=
  let ms := properties fields
  ms.flatMap (property s home)
    ++ constructor s home name baseCall ms
    ++ blank
    ++ equalsMethod s name ms
    ++ blank
    ++ hashMethod s ms
    ++ blank
    ++ toStringMethod display ms

end CSharp
end Target
end Schemata
