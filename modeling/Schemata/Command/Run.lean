import Schemata.Codec.Decode
import Schemata.Codec.Encode
import Schemata.Command.Invocation
import Schemata.Json.Parser
import Schemata.Json.Printer
import Schemata.Project.Build

/-!
# Commands

Each command is a function from the files there are to the files there are
afterwards, with an exit code and what is printed.
-/

namespace Schemata
namespace Command

/-- What a command sees apart from its arguments and the files. -/
structure Environment where
  /-- The absolute path of the directory in which the command runs. -/
  root : Path
  /-- The directory of all configurations. -/
  configHome : Path
  /-- Everything there is to read from standard input. -/
  input : String
deriving Repr

/-- The exit code of a command and what it prints. -/
structure Outcome where
  code : Nat
  output : String
  /-- Lines about problems. -/
  problems : List String
deriving DecidableEq, Repr

namespace Outcome

/-- A success that prints something. -/
def print
    (output : String) :
    Outcome :=
  ⟨0, output, []⟩

/-- The line of an error. -/
def errorLine
    (message : String) :
    String :=
  s!"error: {message}"

/-- A failure with one message. -/
def failure
    (message : String) :
    Outcome :=
  ⟨1, "", [errorLine message]⟩

/-- A mistake in usage. -/
def usage : Outcome :=
  ⟨2, "", []⟩

/-- Show diagnostics first. -/
def after
    (diagnostics : List Diagnostic)
    (o : Outcome) :
    Outcome :=
  { o with problems := diagnostics.map (·.headline) ++ o.problems }

end Outcome

/-- The name and the version of the program. -/
def versionText : String :=
  "reproto 0.4.0\n"

/-- How the program is used. -/
def helpText : String :=
  "Usage: reproto [-v] <build|check|validate|backends> [OPTIONS]\n"

/-- A text filled with spaces up to a width. -/
def padTo
    (width : Nat)
    (text : String) :
    String :=
  text ++ Text.times (width - text.length) " "

/-- The line about a backend. -/
def backendLine
    (b : Backend) :
    String :=
  s!"{padTo 8 b.name} {padTo 11 b.language} .{b.extension}\n"

/-- The settings of a configuration, where the command line says nothing else. -/
def settings
    (env : Environment)
    (t : FileTree)
    (a : SourceArguments) :
    Except ConfigError Settings :=
  (Config.load t env.configHome env.root a.config).map fun config =>
    let base := Settings.ofConfig config
    { base with
      paths := if a.paths.isEmpty then base.paths else a.paths
      resolve := { base.resolve with scheme := a.scheme.getD base.resolve.scheme } }

/-- The settings of a build. -/
def buildSettings
    (base : Settings)
    (a : BuildArguments) :
    Settings :=
  { base with
    targets := if a.targets.isEmpty then base.targets else a.targets
    output := a.out.getD base.output
    packages := if a.packages.isEmpty then base.packages else a.packages
    placement := a.placement.getD base.placement }

/-- What a build reports. -/
def buildOutcome
    (report : BuildReport) :
    Outcome :=
  let errors := Diagnostic.errorCount report.diagnostics
  let files := report.written.length
  let result :=
    if Diagnostic.hasErrors report.diagnostics then
      Outcome.failure s!"build failed with {errors} error(s), {files} file(s) written"
    else .print ""
  result.after report.diagnostics

/-- Build a project. -/
def runBuild
    (env : Environment)
    (t : FileTree)
    (a : BuildArguments) :
    FileTree × Outcome :=
  match settings env t a.source with
  | .error e => (t, .failure e.message)
  | .ok base =>
      match build t (buildSettings base a) with
      | (t, .error e) => (t, .failure e.message)
      | (t, .ok report) => (t, buildOutcome report)

/-- Compile a project. -/
def runCheck
    (env : Environment)
    (t : FileTree)
    (a : SourceArguments) :
    Outcome :=
  match settings env t a with
  | .error e => .failure e.message
  | .ok settings =>
      match Build.check t settings.paths settings.resolve with
      | .error e => .failure e.message
      | .ok compilation =>
          let errors := Diagnostic.errorCount compilation.diagnostics
          let result :=
            if Diagnostic.hasErrors compilation.diagnostics then
              Outcome.failure s!"check failed with {errors} error(s)"
            else .print ""
          result.after compilation.diagnostics

/-- The document that is validated. -/
def readInput
    (env : Environment)
    (t : FileTree) :
    Option Path → Except String String
  | none => .ok env.input
  | some path =>
      if path.components = [.name "-"] then .ok env.input
      else
        match t.read path with
        | .ok text => .ok text
        | .error _ => .error s!"failed to read {path.text}"

/-- Decode a document and print it encoded again. -/
def roundTrip
    (s : Schema)
    (placement : Placement)
    (id : DeclId)
    (text : String) :
    Outcome :=
  match Json.parse? text with
  | none => .failure "input is not JSON"
  | some document =>
      match Codec.decode s document (.decl id) with
      | .error e => .failure e.message
      | .ok value =>
          match Codec.encode s placement value with
          | .error e => .failure e.message
          | .ok encoded => .print (encoded.pretty ++ "\n")

/-- Find the declaration and the document of a validation, and validate. -/
def validateWith
    (env : Environment)
    (t : FileTree)
    (a : ValidateArguments)
    (placement : Placement)
    (s : Schema) :
    Outcome :=
  match s.lookupDecl a.type with
  | .error e => .failure e.message
  | .ok id =>
      match readInput env t a.input with
      | .error message => .failure message
      | .ok text => roundTrip s placement id text

/-- Validate a document. -/
def runValidate
    (env : Environment)
    (t : FileTree)
    (a : ValidateArguments) :
    Outcome :=
  match settings env t a.source with
  | .error e => .failure e.message
  | .ok settings =>
      match Build.check t settings.paths settings.resolve with
      | .error e => .failure e.message
      | .ok compilation =>
          let result : Outcome :=
            match compilation.schema with
            | none => ⟨1, "", []⟩
            | some s => validateWith env t a settings.placement s
          result.after compilation.diagnostics

/-- Do what was asked for. -/
def Invocation.run
    (env : Environment)
    (t : FileTree) :
    Invocation → FileTree × Outcome
  | .help => (t, .print helpText)
  | .version => (t, .print versionText)
  | .backends => (t, .print (String.join (Target.all.map backendLine)))
  | .build a => runBuild env t a
  | .check a => (t, runCheck env t a)
  | .validate a => (t, runValidate env t a)

/-- Run a command line. -/
def run
    (env : Environment)
    (t : FileTree)
    (tokens : List String) :
    FileTree × Outcome :=
  match Invocation.parse? tokens with
  | some invocation => invocation.run env t
  | none => (t, .usage)

end Command
end Schemata
