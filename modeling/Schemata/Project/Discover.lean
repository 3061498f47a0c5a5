import Schemata.Package
import Schemata.Project.Error
import Schemata.Project.FileTree

/-!
# Discovery

The package of a source file comes from its path below a source directory: the
directories and the name of the file, joined by dots.  What follows a dash in
the name of the file is the version.
-/

namespace Schemata

/-- The extension of source files. -/
def sourceExtension : String :=
  "reproto"

/-- A source file and the identity that its path gives it. -/
structure Discovered where
  path : Path
  identity : Identity
deriving DecidableEq, Repr

namespace Discover

/-- The package name in a file name, and the text of the version behind it. -/
def cutStem
    (stem : String) :
    String × Option String :=
  match Text.cutAt? ['-'] stem.toList with
  | some (name, version) => (String.ofList name, some (String.ofList version))
  | none => (stem, none)

/-- The version of a file. -/
def versionOf
    (path : Path) :
    Option String → Except LoadError (Option Version)
  | none => .ok none
  | some text =>
      match Version.parse text with
      | .ok v => .ok (some v)
      | .error e => .error (.invalidVersion path.text text e.message)

/-- The identity of the file `path` below `root`. -/
def identity
    (root path : Path) :
    Except LoadError Identity :=
  let inner := (path.relativeTo? root).getD path
  match inner.fileName? with
  | none => .error (.invalidPackageName path.text inner.text)
  | some file =>
      let (last, version) := cutStem (Path.cutExtension file).1
      match versionOf path version with
      | .error e => .error e
      | .ok version =>
          let parts := inner.components.dropLast.map (·.text) ++ [last]
          let name := String.intercalate "." parts
          match PackageName.parse? name with
          | some name => .ok { name, version }
          | none => .error (.invalidPackageName path.text name)

/-- The source files below a directory. -/
def sourcesBelow
    (t : FileTree)
    (root : Path) :
    List Path :=
  let isSource := fun (names : List String) =>
    (Path.cutExtension (names.getLastD "")).2 == some sourceExtension
  ((t.filesBelow root).filter isSource).map fun names => root.join (Path.ofNames names)

/-- Add the files of one source directory to those found before; no two identities may be written
alike. -/
def addFiles
    (root : Path) :
    List Discovered → List Path → Except LoadError (List Discovered)
  | found, [] => .ok found
  | found, path :: rest =>
      match identity root path with
      | .error e => .error e
      | .ok id =>
          match found.find? (·.identity.display == id.display) with
          | some first => .error (.duplicatePackage id.display first.path.text path.text)
          | none => addFiles root (found ++ [⟨path, id⟩]) rest

/-- Add the files of several source directories to those found before. -/
def addRoots
    (t : FileTree) :
    List Discovered → List Path → Except LoadError (List Discovered)
  | found, [] => .ok found
  | found, root :: rest =>
      if t.isDirectory root then
        match addFiles root found (sourcesBelow t root) with
        | .error e => .error e
        | .ok found => addRoots t found rest
      else .error (.missingRoot root.text)

end Discover

/-- The source files below some directories, in the order of the directories and, below each, of
the names. -/
def discover
    (t : FileTree)
    (roots : List Path) :
    Except LoadError (List Discovered) :=
  Discover.addRoots t [] roots

end Schemata
