/-!
# Errors around compilation

What can go wrong in finding and reading sources, writing output, and choosing
targets, packages and declarations by name.  Paths are held as texts.
-/

namespace Schemata

/-- A failure around compilation. -/
inductive LoadError where
  | missingRoot (path : String)
  | walk (path : String)
  | read (path : String)
  | write (path : String)
  | invalidPackageName (path name : String)
  | invalidVersion (path version message : String)
  | duplicatePackage (identity first second : String)
  | unknownTarget (name : String) (available : List String)
  | unknownPackage (selector : String)
  | ambiguousPackage (name : String) (candidates : List String)
  | malformedName (name : String)
  | unknownDecl (package path : String)
deriving DecidableEq, Repr

/-- Message of a failure.  Failures of the file system say no more than where they happened. -/
def LoadError.message : LoadError → String
  | missingRoot path => s!"source path `{path}` is not a directory"
  | walk _ => "failed to walk sources"
  | read path => s!"failed to read `{path}`"
  | write path => s!"failed to write `{path}`"
  | invalidPackageName path name => s!"`{path}` does not name a valid package (`{name}`)"
  | invalidVersion path version message =>
      s!"`{path}` has an invalid version `{version}`: {message}"
  | duplicatePackage identity first second =>
      s!"package `{identity}` is defined by both `{first}` and `{second}`"
  | unknownTarget name available =>
      s!"unknown target `{name}`, available: " ++ String.intercalate ", " available
  | unknownPackage selector => s!"no package matches `{selector}`"
  | ambiguousPackage name candidates =>
      s!"`{name}` matches several package versions: " ++ String.intercalate ", " candidates
  | malformedName name => s!"expected `<package>::<Name>`, found `{name}`"
  | unknownDecl package path => s!"package `{package}` has no declaration `{path}`"

end Schemata
