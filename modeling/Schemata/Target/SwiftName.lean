import Schemata.Emit.Name
import Schemata.Text.Quoted

/-!
# Swift: names and types

Swift has no namespaces, so an outermost declaration carries the segments of
its package in its name.  A nested declaration is a nested type, except inside
a service: a protocol cannot hold types, so they stand beside it and carry its
name.
-/

namespace Schemata
namespace Target
namespace Swift

open Emit (Member)

/-- The identifier of a declaration or of a case. -/
def typeIdent
    (name : String) :
    String :=
  Emit.typeIdent .swift name

/-- The segments of a package. -/
def segments
    (p : Package) :
    List String :=
  Emit.namespaceSegments (some .upperCamel) p.ns

/-- What the names of the outermost declarations of a package start with. -/
def packageText
    (p : Package) :
    String :=
  String.intercalate "_" (segments p)

/-- The declaration at an index is a service. -/
def isService
    (p : Package)
    (index : Nat) :
    Bool :=
  match (p.decl index).body with
  | .service _ => true
  | _ => false

/-- What stands between the name of a declaration and the name of one inside it. -/
def joint
    (p : Package)
    (parent : Nat) :
    String :=
  if isService p parent then "_" else "."

/-- The full name of the declaration at the head of a chain of indices, innermost first. -/
def chainName
    (p : Package) :
    List Nat → String
  | [] => packageText p
  | [root] => s!"{packageText p}_{typeIdent (p.decl root).name}"
  | index :: parent :: rest =>
      chainName p (parent :: rest) ++ joint p parent ++ typeIdent (p.decl index).name

/-- The full name of a declaration. -/
def qualified
    (s : Schema)
    (id : DeclId) :
    String :=
  let p := s.package id.package
  chainName p (p.parents id.index)

/-- The declaration is written at the level of the file, and not inside another one. -/
def isFlat
    (s : Schema)
    (id : DeclId) :
    Bool :=
  match (s.decl id).parent with
  | none => true
  | some parent => isService (s.package id.package) parent

/-- The name of a declaration where it is defined. -/
def definedName
    (s : Schema)
    (id : DeclId) :
    String :=
  if isFlat s id then qualified s id else typeIdent (s.decl id).name

/-- The full name of a case of an interface. -/
def caseType
    (s : Schema)
    (id : DeclId)
    (c : SubType) :
    String :=
  s!"{qualified s id}.{typeIdent c.name}"

/-- A name that every enum has already, marked. -/
def avoidInherited : String → String
  | "description" => "description_"
  | "hashValue" => "hashValue_"
  | name => name

/-- The enum cases for the cases of an interface.  They start with a small letter, so that they
are not taken for the types of the same name. -/
def caseNames
    (body : InterfaceBody) :
    List String :=
  (Naming.Language.swift.spellAll .lowerCamel (body.subTypes.map (·.name))).map avoidInherited

/-- The cases of an enum. -/
def enumCaseNames
    (members : List EnumMember) :
    List String :=
  Naming.Language.swift.spellAll .upperCamel (members.map (·.name))

/-- The properties of a struct. -/
def properties
    (fields : List Field) :
    List Member :=
  Emit.members .swift .lowerSnake fields

/-- Primitive types. -/
def primitiveText : Primitive → String
  | .boolean => "Bool"
  | .string => "String"
  | .datetime => "Date"
  | .bytes => "Data"
  | .any => "AnyHashable"
  | .u32 => "UInt32"
  | .u64 => "UInt64"
  | .i32 => "Int32"
  | .i64 => "Int64"
  | .float => "Float"
  | .double => "Double"

mutual

/-- A type.  Tuples without a name are refused, so their form is in no file. -/
def typeText
    (s : Schema) :
    TypeRef → String
  | .primitive p => primitiveText p
  | .decl id => qualified s id
  | .array item => s!"[{typeText s item}]"
  | .map key value => s!"[{typeText s key}: {typeText s value}]"
  | .tuple items => "(" ++ String.intercalate ", " (typeTexts s items) ++ ")"

/-- Several types. -/
def typeTexts
    (s : Schema) :
    List TypeRef → List String
  | [] => []
  | type :: rest => typeText s type :: typeTexts s rest

end

/-- The type of a property. -/
def propertyType
    (s : Schema)
    (f : Field) :
    String :=
  let type := typeText s f.type
  if f.optional then s!"{type}?" else type

/-- A value of an enum. -/
def valueText : EnumValue → String
  | .string text => Text.literal text
  | .number value => toString value

end Swift
end Target
end Schemata
