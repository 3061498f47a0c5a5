import Schemata.Emit.Name

/-!
# C#: names and types

A package is a namespace, and a nested declaration is a nested class.  A
declaration of the package at hand is named by its path; any other one by its
namespace too, from the global one on.
-/

namespace Schemata
namespace Target
namespace CSharp

open Emit (Member)

/-- The identifier of a declaration or of a case. -/
def typeIdent
    (name : String) :
    String :=
  Emit.typeIdent .csharp name

/-- The segments of the namespace of a package. -/
def segments
    (p : Package) :
    List String :=
  Emit.namespaceSegments (some .upperCamel) p.ns

/-- The namespace of a package. -/
def namespaceText
    (p : Package) :
    String :=
  String.intercalate "." (segments p)

/-- The classes on the way to a declaration. -/
def classPath
    (s : Schema)
    (id : DeclId) :
    String :=
  String.intercalate "." ((s.declPath id).map typeIdent)

/-- The name of a declaration in the code of package `home`. -/
def typeName
    (s : Schema)
    (home : Nat)
    (id : DeclId) :
    String :=
  let path := classPath s id
  if id.package = home then path
  else s!"global::{namespaceText (s.package id.package)}.{path}"

/-- The properties of a class. -/
def properties
    (fields : List Field) :
    List Member :=
  Emit.members .csharp .lowerCamel fields

/-- Primitive types. -/
def primitiveText : Primitive → String
  | .boolean => "bool"
  | .string => "String"
  | .datetime => "DateTime"
  | .bytes => "byte[]"
  | .any => "Object"
  | .u32 => "uint"
  | .u64 => "ulong"
  | .i32 => "int"
  | .i64 => "long"
  | .float => "float"
  | .double => "double"

mutual

/-- A type in the code of package `home`.  Tuples without a name are refused, so their form is in
no file. -/
def typeText
    (s : Schema)
    (home : Nat) :
    TypeRef → String
  | .primitive p => primitiveText p
  | .decl id => typeName s home id
  | .array item => s!"List<{typeText s home item}>"
  | .map key value => s!"Dictionary<{typeText s home key}, {typeText s home value}>"
  | .tuple items => "(" ++ String.intercalate ", " (typeTexts s home items) ++ ")"

/-- Several types. -/
def typeTexts
    (s : Schema)
    (home : Nat) :
    List TypeRef → List String
  | [] => []
  | type :: rest => typeText s home type :: typeTexts s home rest

end

/-- How values of a type are compared. -/
inductive Shape where
  /-- Values, with or without null. -/
  | value
  /-- Objects with a comparison of their own. -/
  | object
  /-- Sequences, compared item by item. -/
  | sequence
  /-- Dictionaries. -/
  | dictionary
deriving DecidableEq, Repr

/-- The shape of a type. -/
def shape
    (s : Schema) :
    TypeRef → Shape
  | .primitive .string | .primitive .any => .object
  | .primitive .bytes => .sequence
  | .primitive _ => .value
  | .decl id =>
      match (s.decl id).body with
      | .enum _ _ => .value
      | _ => .object
  | .array _ => .sequence
  | .map _ _ => .dictionary
  | .tuple _ => .object

/-- The type of a property; an optional value may be null. -/
def propertyType
    (s : Schema)
    (home : Nat)
    (f : Field) :
    String :=
  let type := typeText s home f.type
  if f.optional && shape s f.type == .value then s!"{type}?" else type

end CSharp
end Target
end Schemata
