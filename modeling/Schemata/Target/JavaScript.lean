import Schemata.Emit.Backend
import Schemata.Schema.Nesting
import Schemata.Target.JavaScriptClass
import Schemata.Target.JavaScriptPrelude

/-!
# JavaScript: declarations and files

Each package has one file, a module.  Declarations are classes: outermost ones
are exported, nested ones and cases are static members.  Services are refused,
and so are enums with numbers that are not exact.
-/

namespace Schemata
namespace Target
namespace JavaScript

open Code

/-- The class of a declaration. -/
def classCode
    (s : Schema)
    (id : DeclId)
    (members : Code) :
    Code :=
  let name := typeIdent (s.decl id).name
  match (s.decl id).parent with
  | none => block s!"export class {name}" members
  | some _ => blockEnding "\x7d;" s!"{classPath s id} = class {name}" members

/-- The class of a case. -/
def caseCode
    (s : Schema)
    (placement : Placement)
    (id : DeclId)
    (body : InterfaceBody)
    (c : SubType) :
    Code :=
  let name := typeIdent c.name
  let tag :=
    match body.strategy with
    | .tagged tag => some ⟨tag, c.literal⟩
    | .untagged => none
  blank
    ++ doc "//" c.doc
    ++ blockEnding "\x7d;" s!"{classPath s id}.{name} = class {name}"
        (objectMembers s placement id.package name tag (body.fieldsOf c))

/-- The code of a declaration, without that of the declarations inside it. -/
def declCode
    (s : Schema)
    (placement : Placement)
    (id : DeclId) :
    Code :=
  let d := s.decl id
  let name := typeIdent d.name
  blank ++ doc "//" d.doc ++
    match d.body with
    | .type fields => classCode s id (objectMembers s placement id.package name none fields)
    | .tuple fields => classCode s id (tupleMembers s id.package name fields)
    | .interface body =>
        classCode s id (interfaceMembers s id name body)
          ++ body.subTypes.flatMap (caseCode s placement id body)
    | .enum _ members =>
        classCode s id (enumMembers name) ++ enumValues (classPath s id) members
    | .service _ => []

/-- The greatest number below which all whole numbers are exact. -/
def maxSafeInteger : Nat :=
  9007199254740991

/-- The value is a number that is not exact. -/
def isInexact : EnumValue → Bool
  | .number value => maxSafeInteger < value.natAbs
  | .string _ => false

/-- What cannot be expressed in a declaration, apart from what is inside it. -/
def feature? : DeclBody → Option String
  | .service _ => some "services"
  | .enum _ members =>
      if members.any fun m => isInexact m.value then
        some "enum values beyond the safe integer range"
      else none
  | _ => none

/-- The first refusal, level by level. -/
def refusal?
    (s : Schema)
    (root : DeclId) :
    Option Refusal :=
  (s.withDescendants root).findSome? fun id => (feature? (s.decl id).body).map (⟨id, ·⟩)

/-- The packages that some outermost declarations refer to, in the order of the schema. -/
def imports
    (s : Schema)
    (roots : List DeclId) :
    List Nat :=
  let wanted := (roots.flatMap s.withDescendants).flatMap (importsOf s)
  (List.range s.packages.length).filter wanted.contains

/-- The statement that imports a package. -/
def importLine
    (p : Package)
    (path : List String) :
    String :=
  s!"import * as {importName p} from {Text.literal (relative path (modulePath p))};"

/-- The module of some fragments. -/
def assemble
    (s : Schema)
    (path : List String)
    (fragments : List Fragment) :
    String :=
  render "  " <|
    lines ((imports s (fragments.map (·.decl))).map fun package =>
        importLine (s.package package) path)
      ++ blank
      ++ preludeCode
      ++ fragments.flatMap fun f => blank ++ embed f.text

end JavaScript

/-- The writer of JavaScript code. -/
def javascript : Backend :=
  { name := "js"
    language := "JavaScript"
    extension := "js"
    path := fun s root => JavaScript.modulePath (s.package root.package)
    refusal? := JavaScript.refusal?
    text := fun s placement root =>
      Code.render "  " ((s.withDescendants root).flatMap (JavaScript.declCode s placement))
    assemble := JavaScript.assemble }

end Target
end Schemata
