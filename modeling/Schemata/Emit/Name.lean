import Schemata.Naming.Reserved
import Schemata.Schema.Lookup

/-!
# Names in generated code

What the targets share: segments of namespaces, identifiers of declarations,
and identifiers of fields, arguments and members, which are distinct among
siblings.
-/

namespace Schemata
namespace Emit

open Naming (Casing Language)

/-- The segments of a namespace with its parts in a casing; the version is left as it is. -/
def namespaceSegments
    (casing : Option Casing)
    (ns : Namespace) :
    List String :=
  let spell := fun part =>
    match casing with
    | some casing => casing.apply part
    | none => part
  ns.parts.map spell ++ ns.version.toList

/-- The path of a file that is named for a namespace. -/
def namespaceFile
    (extension : String) :
    List String → List String
  | [] => [s!".{extension}"]
  | [last] => [s!"{last}.{extension}"]
  | first :: rest => first :: namespaceFile extension rest

/-- The identifier of a declaration or of a case. -/
def typeIdent
    (language : Language)
    (name : String) :
    String :=
  language.spell (Casing.upperCamel.apply name)

/-- A field with its identifier. -/
structure Member where
  field : Field
  ident : String
deriving Repr

/-- Sibling fields with their identifiers. -/
def members
    (language : Language)
    (casing : Casing)
    (fields : List Field) :
    List Member :=
  fields.zipWith Member.mk (language.spellAll casing (fields.map (·.name)))

end Emit

/-- The types that travel through an endpoint, each with its manner. -/
def Endpoint.channels
    (e : Endpoint) :
    List Channel :=
  e.arguments.map (·.channel) ++ e.response.toList

namespace DeclBody

/-- The field lists of the records that a declaration stands for: its own, or one for each
case. -/
def records : DeclBody → List (List Field)
  | type fields | tuple fields => [fields]
  | interface body => body.subTypes.map body.fieldsOf
  | enum _ _ | service _ => []

/-- The types that the code of a declaration mentions. -/
def memberTypes : DeclBody → List TypeRef
  | service endpoints => (endpoints.flatMap (·.channels)).map (·.type)
  | body => body.records.flatten.map (·.type)

end DeclBody

namespace TypeRef

/-- The type is a tuple without a name. -/
def isTuple : TypeRef → Bool
  | tuple _ => true
  | _ => false

/-- The type is written with a tuple without a name. -/
def hasInlineTuple
    (type : TypeRef) :
    Bool :=
  type.parts.any isTuple

end TypeRef

end Schemata
