import Schemata.Diagnostic
import Schemata.Path
import Schemata.Schema.Lookup

/-!
# Emission

A backend writes a declaration with everything inside it as one fragment, or
refuses it.  `emit` runs backends over the outermost declarations of a schema
and joins the fragments that belong to one file, in the order of the schema.
A refusal stops its own declaration only.
-/

namespace Schemata

/-- What a backend cannot express, and where. -/
structure Refusal where
  decl : DeclId
  feature : String
deriving DecidableEq, Repr

/-- A declaration that a backend has refused. -/
structure EmitError where
  backend : String
  /-- The full name of the declaration. -/
  decl : String
  feature : String
  span : Span
deriving DecidableEq, Repr

/-- Message of a refusal. -/
def EmitError.message
    (e : EmitError) :
    String :=
  s!"{e.backend}: {e.feature} is not supported (in `{e.decl}`)"

/-- The diagnostic of a refusal. -/
def EmitError.toDiagnostic
    (e : EmitError) :
    Diagnostic :=
  { severity := .error
    message := e.message
    labels := [⟨.primary, e.span, ""⟩]
    notes := [s!"no `{e.backend}` output is written for this declaration"] }

/-- Choices that all backends follow. -/
structure EmitOptions where
  placement : Placement
  /-- The packages to write; an empty list stands for all of them. -/
  packages : List Nat
deriving Repr

/-- The code of one outermost declaration. -/
structure Fragment where
  decl : DeclId
  text : String
deriving DecidableEq, Repr

/-- A writer of generated code. -/
structure Backend where
  name : String
  language : String
  extension : String
  /-- The path of the file that holds an outermost declaration. -/
  path : Schema → DeclId → List String
  /-- The first thing inside an outermost declaration that cannot be expressed. -/
  refusal? : Schema → DeclId → Option Refusal
  /-- The code of an outermost declaration that is not refused. -/
  text : Schema → Placement → DeclId → String
  /-- The file with a path and these fragments. -/
  assemble : Schema → List String → List Fragment → String

/-- A generated file. -/
structure OutputFile where
  backend : String
  path : List String
  contents : String
deriving DecidableEq, Repr

/-- Generated files, and what was refused. -/
structure Emitted where
  files : List OutputFile
  errors : List EmitError
deriving Repr

/-- The refusal of a declaration as an error. -/
def Backend.error?
    (b : Backend)
    (s : Schema)
    (id : DeclId) :
    Option EmitError :=
  (b.refusal? s id).map fun r =>
    { backend := b.name
      decl := s.displayName r.decl
      feature := r.feature
      span := (s.decl r.decl).span }

namespace Emit

/-- A backend and an outermost declaration that it writes. -/
structure Job where
  backend : Backend
  decl : DeclId

/-- The packages that are written. -/
def selected
    (s : Schema)
    (options : EmitOptions) :
    List Nat :=
  (List.range s.packages.length).filter fun package =>
    options.packages.isEmpty || options.packages.contains package

/-- Everything there is to write, by backend, package and declaration. -/
def jobs
    (s : Schema)
    (backends : List Backend)
    (options : EmitOptions) :
    List Job :=
  backends.flatMap fun backend =>
    ((selected s options).flatMap s.rootsOf).map fun decl => ⟨backend, decl⟩

namespace Job

/-- The job fails with this error. -/
def error?
    (j : Job)
    (s : Schema) :
    Option EmitError :=
  j.backend.error? s j.decl

/-- The job gives a fragment. -/
def succeeds
    (j : Job)
    (s : Schema) :
    Bool :=
  (j.error? s).isNone

/-- The name of the backend and the path of the file. -/
def key
    (j : Job)
    (s : Schema) :
    String × List String :=
  (j.backend.name, j.backend.path s j.decl)

/-- The fragment of the job. -/
def fragment
    (j : Job)
    (s : Schema)
    (placement : Placement) :
    Fragment :=
  ⟨j.decl, j.backend.text s placement j.decl⟩

end Job

/-- Order of files: by backend, then by path. -/
def keyLe
    (a b : String × List String) :
    Bool :=
  a.1 < b.1 || (a.1 == b.1 && Path.namesLe a.2 b.2)

/-- The file with a key, made from the jobs that belong to it. -/
def file?
    (s : Schema)
    (placement : Placement)
    (jobs : List Job)
    (key : String × List String) :
    Option OutputFile :=
  match jobs.filter (·.key s == key) with
  | [] => none
  | first :: rest =>
      some
        { backend := key.1
          path := key.2
          contents := first.backend.assemble s key.2
            ((first :: rest).map (·.fragment s placement)) }

end Emit

/-- Write the selected outermost declarations of a schema with several backends. -/
def emit
    (s : Schema)
    (backends : List Backend)
    (options : EmitOptions) :
    Emitted :=
  let jobs := Emit.jobs s backends options
  let done := jobs.filter (·.succeeds s)
  let keys := (done.map (·.key s)).eraseDups.mergeSort Emit.keyLe
  { files := keys.filterMap (Emit.file? s options.placement done)
    errors := jobs.filterMap (·.error? s) }

end Schemata
