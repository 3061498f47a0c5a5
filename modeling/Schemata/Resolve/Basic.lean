import Schemata.Resolve.Convert
import Schemata.Resolve.Cycle

/-!
# Resolution

A list of files, one for each package, becomes a schema.  Identities are
checked and get their namespaces, declarations are numbered, imports select
packages, and then every declaration is resolved.  All errors are reported
together; a schema comes with the warnings about cycles of required fields.
-/

namespace Schemata

/-- Choices that resolution depends on. -/
structure ResolveOptions where
  scheme : VersionScheme
  defaultTag : String
deriving DecidableEq, Repr

/-- A schema and the warnings about it. -/
structure Resolved where
  schema : Schema
  warnings : List RequiredCycle

namespace Resolve

/-- The errors of files that define a package that an earlier one defines; `seen` are the
identities before. -/
def duplicatePackages
    (seen : List Identity) :
    List SourceFile → List ResolveError
  | [] => []
  | f :: rest =>
      if seen.contains f.identity then
        .located ⟨f.file, 0, 0⟩ (.duplicatePackage f.identity.display)
          :: duplicatePackages seen rest
      else duplicatePackages (f.identity :: seen) rest

/-- The namespaces of the files.  Files that define a package twice get empty ones. -/
def namespaces
    (scheme : VersionScheme)
    (files : List SourceFile) :
    Checked (List Namespace) :=
  let blank := files.map fun _ => (⟨[], none⟩ : Namespace)
  match duplicatePackages [] files with
  | [] =>
      match Namespace.assign scheme (files.map (·.identity)) with
      | .ok found => ⟨found, []⟩
      | .error collisions =>
          ⟨blank, collisions.map fun c => ⟨.namespaceCollision c, none, none⟩⟩
  | errors => ⟨blank, errors⟩

/-- The numbered declarations of each file. -/
def registerAll
    (files : List SourceFile) :
    Checked (List (List Nat × List Entry)) :=
  files.mapM fun f => register 0 none [] f.tree.decls

/-- The imports of each file. -/
def importAll
    (files : List SourceFile) :
    Checked (List (List ImportEntry)) :=
  files.mapM fun f => resolveImports (files.map (·.identity)) [] f.tree.imports

/-- The tables of the files. -/
def tables
    (files : List SourceFile) :
    Checked (List Table) := do
  let registered ← registerAll files
  let imports ← importAll files
  return (registered.zip imports).map fun ((roots, entries), imports) =>
    { entries, roots, imports }

/-- Resolve the entries of a table from an index on. -/
def entries
    (tables : List Table)
    (defaultTag : String)
    (package : Nat) :
    Nat → List Entry → Checked (List Decl)
  | _, [] => pure []
  | index, e :: rest => do
      let d ← Convert.entry tables defaultTag package index e
      return d :: (← entries tables defaultTag package (index + 1) rest)

/-- The package of a file. -/
def package
    (tables : List Table)
    (defaultTag : String)
    (index : Nat)
    (file : SourceFile)
    (ns : Namespace)
    (table : Table) :
    Checked Package := do
  return { identity := file.identity
           ns
           doc := file.tree.doc
           decls := ← entries tables defaultTag index 0 table.entries
           roots := table.roots }

/-- The packages of the files, from an index on. -/
def packages
    (tables : List Table)
    (defaultTag : String) :
    Nat → List (SourceFile × Namespace × Table) → Checked (List Package)
  | _, [] => pure []
  | index, (file, ns, table) :: rest => do
      let p ← package tables defaultTag index file ns table
      return p :: (← packages tables defaultTag (index + 1) rest)

/-- The schema of the files, with all errors. -/
def schema
    (options : ResolveOptions)
    (files : List SourceFile) :
    Checked Schema := do
  let namespaces ← namespaces options.scheme files
  let tables ← tables files
  return ⟨← packages tables options.defaultTag 0 (files.zip (namespaces.zip tables))⟩

end Resolve

/-- Resolve files into a schema. -/
def resolve
    (options : ResolveOptions)
    (files : List SourceFile) :
    Except (List ResolveError) Resolved :=
  let checked := Resolve.schema options files
  match checked.errors with
  | [] => .ok ⟨checked.value, Cycle.warnings checked.value⟩
  | errors => .error errors

end Schemata
