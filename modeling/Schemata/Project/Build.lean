import Schemata.Project.Compile
import Schemata.Project.Config
import Schemata.Project.Discover
import Schemata.Project.Select
import Schemata.Target.Basic

/-!
# Builds

A build finds and compiles the sources of a project, runs backends over the
schema, and writes what they give below an output directory.  Nothing is
written unless the targets, the sources and the packages are all in order.
-/

namespace Schemata

/-- Source files with their texts. -/
structure Sources where
  paths : List Path
  inputs : List Input

/-- The outcome of a build. -/
structure BuildReport where
  diagnostics : List Diagnostic
  /-- The files that were written, in their order. -/
  written : List Path

namespace Build

/-- Read source files, numbered from an index on. -/
def readSources
    (t : FileTree) :
    Nat → List Discovered → Except LoadError (List Input)
  | _, [] => .ok []
  | index, found :: rest =>
      match t.read found.path with
      | .error _ => .error (.read found.path.text)
      | .ok text =>
          match readSources t (index + 1) rest with
          | .error e => .error e
          | .ok inputs => .ok (⟨index, found.identity, text⟩ :: inputs)

/-- Find and read the sources below some directories. -/
def load
    (t : FileTree)
    (roots : List Path) :
    Except LoadError Sources :=
  match discover t roots with
  | .error e => .error e
  | .ok found =>
      match readSources t 0 found with
      | .error e => .error e
      | .ok inputs => .ok ⟨found.map (·.path), inputs⟩

/-- Find, read and compile the sources below some directories. -/
def check
    (t : FileTree)
    (roots : List Path)
    (options : ResolveOptions) :
    Except LoadError Compilation :=
  match load t roots with
  | .error e => .error e
  | .ok sources => .ok (compile options sources.inputs)

/-- The path of a generated file. -/
def outputPath
    (output : Path)
    (f : OutputFile) :
    Path :=
  (output.join ⟨f.backend⟩).join (Path.ofNames f.path)

/-- Write generated files, one after the other, until one fails. -/
def writeFiles
    (output : Path)
    (t : FileTree) :
    List OutputFile → FileTree × Except LoadError (List Path)
  | [] => (t, .ok [])
  | f :: rest =>
      let path := outputPath output f
      match t.writeDeep path f.contents with
      | (t, .error _) => (t, .error (.write path.text))
      | (t, .ok ()) =>
          match writeFiles output t rest with
          | (t, .error e) => (t, .error e)
          | (t, .ok written) => (t, .ok (path :: written))

/-- The problems of a compilation and what is to be written. -/
structure Plan where
  diagnostics : List Diagnostic
  files : List OutputFile

/-- Everything of a build but the writing. -/
def plan
    (t : FileTree)
    (settings : Settings) :
    Except LoadError Plan :=
  match Target.select settings.targets with
  | .error e => .error e
  | .ok backends =>
      match check t settings.paths settings.resolve with
      | .error e => .error e
      | .ok compilation =>
          match compilation.schema with
          | none => .ok ⟨compilation.diagnostics, []⟩
          | some s =>
              match s.selectAll settings.packages with
              | .error e => .error e
              | .ok packages =>
                  let emitted := emit s backends ⟨settings.placement, packages⟩
                  .ok
                    { diagnostics :=
                        compilation.diagnostics ++ emitted.errors.map (·.toDiagnostic)
                      files := emitted.files }

end Build

/-- Build a project: the tree afterwards, and what was done. -/
def build
    (t : FileTree)
    (settings : Settings) :
    FileTree × Except LoadError BuildReport :=
  match Build.plan t settings with
  | .error e => (t, .error e)
  | .ok plan =>
      match Build.writeFiles settings.output t plan.files with
      | (t, .error e) => (t, .error e)
      | (t, .ok written) => (t, .ok ⟨plan.diagnostics, written⟩)

end Schemata
