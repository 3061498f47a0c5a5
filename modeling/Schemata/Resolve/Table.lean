import Schemata.Resolve.Checked
import Schemata.Schema.Lookup
import Schemata.Tree.Basic

/-!
# Tables of declarations and imports

Before any name is resolved, the declarations of each file are numbered: a
declaration comes before those nested in it, and these before the next one.
A declaration with the name of an earlier sibling is an error and is left out
with all that it holds.  Each file also gets the packages that its imports
select.
-/

namespace Schemata

/-- A file with the identity of the package that it defines. -/
structure SourceFile where
  file : Nat
  identity : Identity
  tree : Tree.File

/-- A declaration in its place, not yet resolved. -/
structure Entry where
  parent : Option Nat
  children : List Nat
  decl : Tree.Decl

/-- An imported package. -/
structure ImportEntry where
  name : String
  package : Nat
  span : Span
deriving Repr

/-- What is known of a file before its names are resolved. -/
structure Table where
  entries : List Entry
  roots : List Nat
  imports : List ImportEntry

namespace Entry

/-- The name of an entry. -/
def name
    (e : Entry) :
    String :=
  e.decl.name.value

end Entry

/-- Number declarations from `next` on: the indices of the declarations, and the entries of these
and all that is nested in them. -/
def register
    (next : Nat)
    (parent : Option Nat)
    (seen : Seen) :
    List Tree.Decl → Checked (List Nat × List Entry)
  | [] => pure ([], [])
  | d :: rest =>
      match seen.place? d.name.value with
      | some previous => do
          Checked.report
            [.repeated d.name.span previous (.duplicateName "declaration" d.name.value)]
          register next parent seen rest
      | none => do
          let (children, inner) ← register (next + 1) (some next) [] d.body.nested
          let (siblings, outer) ←
            register (next + 1 + inner.length) parent
              (seen ++ [(d.name.value, d.name.span)]) rest
          return (next :: siblings, ⟨parent, children, d⟩ :: inner ++ outer)
termination_by decls => sizeOf decls
decreasing_by
  · simp only [List.cons.sizeOf_spec]
    omega
  · have hnested := Tree.Decl.sizeOf_nested_lt d
    simp only [List.cons.sizeOf_spec]
    omega
  · simp only [List.cons.sizeOf_spec]
    omega

/-- The package that an import selects, or the error of having none. -/
def selectImport
    (installed : List Identity)
    (i : Tree.Import) :
    Except ResolveError Nat :=
  let range : Except ResolveError (Option VersionRange) :=
    match i.range with
    | none => .ok none
    | some text =>
        match VersionRange.parse text.value with
        | .ok range => .ok (some range)
        | .error e => .error (.located text.span (.invalidVersionRange text.value e.message))
  match range with
  | .error e => .error e
  | .ok range =>
      let request : Request := ⟨i.package.value, range⟩
      match request.select installed with
      | .found target => .ok target
      | .missing => .error (.located i.span (.unresolvedPackage request.display))
      | .ambiguous candidates =>
          .error (.located i.span (.ambiguousVersion request.display
            (candidates.filterMap fun c => installed[c]?.map Identity.display)))

/-- The imports of a file; `known` are those before. -/
def resolveImports
    (installed : List Identity)
    (known : List ImportEntry) :
    List Tree.Import → Checked (List ImportEntry)
  | [] => pure known
  | i :: rest =>
      match selectImport installed i with
      | .error e => do
          Checked.report [e]
          resolveImports installed known rest
      | .ok target =>
          match known.find? (·.name == i.localName) with
          | some earlier => do
              Checked.report [.repeated i.span earlier.span (.duplicateImport i.localName)]
              resolveImports installed known rest
          | none => resolveImports installed (known ++ [⟨i.localName, target, i.span⟩]) rest

namespace Table

/-- The entry at an index. -/
def entry?
    (t : Table)
    (index : Nat) :
    Option Entry :=
  t.entries[index]?

/-- The name of the entry at an index. -/
def nameAt
    (t : Table)
    (index : Nat) :
    String :=
  ((t.entry? index).map Entry.name).getD ""

/-- The entries directly inside the entry at an index. -/
def childrenAt
    (t : Table)
    (index : Nat) :
    List Nat :=
  ((t.entry? index).map Entry.children).getD []

/-- The entry around the entry at an index. -/
def parentAt
    (t : Table)
    (index : Nat) :
    Option Nat :=
  (t.entry? index).bind Entry.parent

/-- The entry at the end of a path that begins among siblings. -/
def walkFrom
    (t : Table)
    (siblings : List Nat)
    (path : List String) :
    Option Nat :=
  walk t.nameAt t.childrenAt siblings path

/-- The scopes of a declaration, nearest first: the entries inside it, inside its parent, and so on
out to the roots. -/
def scopes
    (t : Table)
    (index : Nat) :
    List (List Nat) :=
  (enclosing t.parentAt t.entries.length index).map t.childrenAt ++ [t.roots]

/-- The declaration that a name means inside a declaration of a package: in an imported package for
a qualified name, else in the nearest scope that has the whole path. -/
def resolve?
    (tables : List Table)
    (package index : Nat)
    (name : TypeName) :
    Option DeclId :=
  match tables[package]? with
  | none => none
  | some t =>
      match name.qualifier with
      | some qualifier =>
          match t.imports.find? (·.name == qualifier) with
          | none => none
          | some found =>
              match tables[found.package]? with
              | none => none
              | some target =>
                  (target.walkFrom target.roots name.path).map (⟨found.package, ·⟩)
      | none =>
          ((t.scopes index).findSome? fun siblings => t.walkFrom siblings name.path).map
            (⟨package, ·⟩)

end Table

end Schemata
