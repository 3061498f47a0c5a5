import Schemata.Diagnostic
import Schemata.Resolve.Basic
import Schemata.Tree.Parser

/-!
# Compilation

Sources are read and resolved.  Errors of reading stop before resolution; all
problems are collected as diagnostics.
-/

namespace Schemata

/-- A source text and the package that it defines. -/
structure Input where
  file : Nat
  identity : Identity
  source : String
deriving Repr

/-- The problems of a compilation, and the schema if no error stopped it. -/
structure Compilation where
  diagnostics : List Diagnostic
  schema : Option Schema

namespace Compile

/-- Read the sources: the files and all errors, in the order of the sources. -/
def parseAll
    (inputs : List Input) :
    List SourceFile × List ParseError :=
  let parsed := inputs.map fun i => (i, Tree.parse i.file i.source)
  (parsed.map fun (i, tree, _) => ⟨i.file, i.identity, tree⟩,
    parsed.flatMap fun (_, _, errors) => errors)

end Compile

/-- Read and resolve sources. -/
def compile
    (options : ResolveOptions)
    (inputs : List Input) :
    Compilation :=
  match Compile.parseAll inputs with
  | (files, []) =>
      match resolve options files with
      | .ok resolved =>
          { diagnostics := resolved.warnings.map (·.toDiagnostic)
            schema := some resolved.schema }
      | .error errors =>
          { diagnostics := errors.map (·.toDiagnostic)
            schema := none }
  | (_, errors) =>
      { diagnostics := errors.map (·.toDiagnostic)
        schema := none }

end Schemata
