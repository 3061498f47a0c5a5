import Schemata.Project.Error
import Schemata.Schema.Lookup

/-!
# Packages and declarations by name

A selector is `name`, for every version of a package, or `name@version`.  A
declaration is named `selector::Outer::Inner`, where the selector must choose
one package.
-/

namespace Schemata
namespace Schema

/-- The name and the version of a selector. -/
def parseSelector?
    (selector : String) :
    Option (PackageName × Option Version) :=
  match Text.cutAt? ['@'] selector.toList with
  | some (name, version) =>
      match Version.parse (String.ofList version) with
      | .ok version =>
          (PackageName.parse? (String.ofList name)).map fun name => (name, some version)
      | .error _ => none
  | none => (PackageName.parse? selector).map fun name => (name, none)

/-- The package has the name, and the version if one is given. -/
def selects
    (name : PackageName)
    (version : Option Version)
    (p : Package) :
    Bool :=
  p.identity.name == name && (version.isNone || p.identity.version == version)

/-- The packages that a selector chooses; there must be one. -/
def selectPackages
    (s : Schema)
    (selector : String) :
    Except LoadError (List Nat) :=
  match parseSelector? selector with
  | none => .error (.unknownPackage selector)
  | some (name, version) =>
      let found := (List.range s.packages.length).filter fun i => selects name version (s.package i)
      if found.isEmpty then .error (.unknownPackage selector) else .ok found

/-- The packages that several selectors choose. -/
def selectAll
    (s : Schema) :
    List String → Except LoadError (List Nat)
  | [] => .ok []
  | selector :: rest =>
      match s.selectPackages selector with
      | .error e => .error e
      | .ok found =>
          match selectAll s rest with
          | .error e => .error e
          | .ok others => .ok (found ++ others)

/-- The declaration with a full name. -/
def lookupDecl
    (s : Schema)
    (name : String) :
    Except LoadError DeclId :=
  match Text.cutAt? [':', ':'] name.toList with
  | none => .error (.malformedName name)
  | some (_, []) => .error (.malformedName name)
  | some (before, after) =>
      let selector := String.ofList before
      let path := String.ofList after
      match s.selectPackages selector with
      | .error e => .error e
      | .ok [package] =>
          match s.lookup? package (Text.splitOn "::" path) with
          | some id => .ok id
          | none => .error (.unknownDecl (s.package package).identity.display path)
      | .ok candidates =>
          .error (.ambiguousPackage selector
            (candidates.map fun i => (s.package i).identity.display))

end Schema
end Schemata
