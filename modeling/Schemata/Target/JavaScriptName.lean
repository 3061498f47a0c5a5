import Schemata.Emit.Name
import Schemata.Text.Quoted

/-!
# JavaScript: names and modules

A package is a module, and a nested declaration is a static member of the
class around it.  A module imports each other package that it refers to under
one name; `relative` is the way from one module to another.
-/

namespace Schemata
namespace Target
namespace JavaScript

open Emit (Member)

/-- The identifier of a declaration or of a case. -/
def typeIdent
    (name : String) :
    String :=
  Emit.typeIdent .javascript name

/-- The segments of a package. -/
def segments
    (p : Package) :
    List String :=
  Emit.namespaceSegments none p.ns

/-- The path of the module of a package. -/
def modulePath
    (p : Package) :
    List String :=
  Emit.namespaceFile "js" (segments p)

/-- The name under which a package is imported. -/
def importName
    (p : Package) :
    String :=
  Naming.Language.javascript.spell (String.intercalate "_" (segments p))

/-- The classes on the way to a declaration. -/
def classPath
    (s : Schema)
    (id : DeclId) :
    String :=
  String.intercalate "." ((s.declPath id).map typeIdent)

/-- The class of a declaration in the module of package `home`. -/
def classRef
    (s : Schema)
    (home : Nat)
    (id : DeclId) :
    String :=
  let path := classPath s id
  if id.package = home then path else s!"{importName (s.package id.package)}.{path}"

/-- The packages that a declaration refers to, apart from its own. -/
def importsOf
    (s : Schema)
    (id : DeclId) :
    List Nat :=
  (((s.decl id).body.memberTypes.flatMap (·.mentioned)).map (·.package)).filter (· != id.package)

/-- The number of leading items in which two lists agree. -/
def common : List String → List String → Nat
  | a :: as, b :: bs => if a = b then common as bs + 1 else 0
  | _, _ => 0

/-- The steps from a directory to a file: out of what they do not share, or none, and in again. -/
def relativeSteps
    (directory file : List String) :
    List String :=
  let shared := common directory file
  let outward := List.replicate (directory.length - shared) ".."
  (if outward.isEmpty then ["."] else outward) ++ file.drop shared

/-- The way from one module to another. -/
def relative
    (source target : List String) :
    String :=
  String.intercalate "/" (relativeSteps source.dropLast target)

/-- The properties of a class. -/
def properties
    (fields : List Field) :
    List Member :=
  Emit.members .javascript .lowerSnake fields

/-- The local variable of a property. -/
def localName
    (m : Member) :
    String :=
  s!"v_{m.ident}"

/-- A value of an enum. -/
def valueText : EnumValue → String
  | .string text => Text.literal text
  | .number value => toString value

end JavaScript
end Target
end Schemata
