import Schemata.Command.Option
import Schemata.Namespace
import Schemata.Path
import Schemata.Schema.Basic

/-!
# Invocations

What a command line asks for.  Options that can be given once must not come
twice, paths are not empty, and there are no words but those a command has a
use for; anything else is a mistake in usage.
-/

namespace Schemata
namespace Command

/-- Where the sources are and how they are read. -/
structure SourceArguments where
  paths : List Path
  config : Option Path
  scheme : Option VersionScheme
deriving DecidableEq, Repr

/-- What a build is asked for. -/
structure BuildArguments where
  source : SourceArguments
  targets : List String
  out : Option Path
  packages : List String
  placement : Option Placement
deriving DecidableEq, Repr

/-- What a validation is asked for. -/
structure ValidateArguments where
  source : SourceArguments
  type : String
  input : Option Path
deriving DecidableEq, Repr

/-- What a command line asks for. -/
inductive Invocation where
  | help
  | version
  | backends
  | build (arguments : BuildArguments)
  | check (arguments : SourceArguments)
  | validate (arguments : ValidateArguments)
deriving DecidableEq, Repr

/-- Options that every command has. -/
def everywhere : List OptionForm :=
  [⟨.verbose, "verbose", some 'v', false⟩, ⟨.help, "help", some 'h', false⟩]

/-- Options before the name of a command. -/
def outerForms : List OptionForm :=
  ⟨.version, "version", some 'V', false⟩ :: everywhere

/-- Options of commands that read sources. -/
def sourceForms : List OptionForm :=
  [⟨.path, "path", none, true⟩, ⟨.config, "config", none, true⟩,
   ⟨.versionScheme, "version-scheme", none, true⟩] ++ everywhere

/-- Options of a build. -/
def buildForms : List OptionForm :=
  [⟨.target, "target", some 't', true⟩, ⟨.out, "out", some 'o', true⟩,
   ⟨.package, "package", some 'p', true⟩,
   ⟨.placement, "discriminator-placement", none, true⟩] ++ sourceForms

/-- Options of a validation. -/
def validateForms : List OptionForm :=
  ⟨.type, "type", none, true⟩ :: sourceForms

/-- The values of an option. -/
def valuesOf
    (options : List Given)
    (flag : Flag) :
    List String :=
  (options.filter (·.flag == flag)).map (·.value)

/-- The option is given. -/
def hasFlag
    (options : List Given)
    (flag : Flag) :
    Bool :=
  options.any (·.flag == flag)

/-- The value of an option that may come once, if it is given and can be read. -/
def single?
    {α : Type}
    (read : String → Option α)
    (options : List Given)
    (flag : Flag) :
    Option (Option α) :=
  match valuesOf options flag with
  | [] => some none
  | [value] => (read value).map some
  | _ => none

/-- A path that is not empty. -/
def path?
    (text : String) :
    Option Path :=
  if text.isEmpty then none else some ⟨text⟩

/-- What is said about sources. -/
def source?
    (options : List Given) :
    Option SourceArguments := do
  return {
    paths := ← (valuesOf options .path).mapM path?
    config := ← single? path? options .config
    scheme := ← single? VersionScheme.parse? options .versionScheme }

/-- What is said about a build. -/
def build?
    (options : List Given) :
    Option BuildArguments := do
  return {
    source := ← source? options
    targets := valuesOf options .target
    out := ← single? path? options .out
    packages := valuesOf options .package
    placement := ← single? Placement.parse? options .placement }

/-- The document that a validation reads. -/
def input? : List String → Option (Option Path)
  | [] => some none
  | [word] => (path? word).map some
  | _ => none

/-- What is said about a validation. -/
def validate?
    (s : Scanned) :
    Option ValidateArguments := do
  let source ← source? s.options
  let type ← single? some s.options .type
  let input ← input? s.words
  return { source, type := ← type, input }

/-- Read the options of a command, and go on unless help is asked for. -/
def command?
    (forms : List OptionForm)
    (tokens : List String)
    (go : Scanned → Option Invocation) :
    Option Invocation :=
  match scan? forms false tokens with
  | none => none
  | some s => if hasFlag s.options .help then some .help else go s

/-- Go on if there are no words. -/
def wordless
    {α : Type}
    (read : List Given → Option α)
    (s : Scanned) :
    Option α :=
  if s.words.isEmpty then read s.options else none

namespace Invocation

/-- What the words after the options before a command ask for. -/
def ofWords? : List String → Option Invocation
  | "backends" :: tokens => command? everywhere tokens (wordless fun _ => some backends)
  | "build" :: tokens =>
      command? buildForms tokens (wordless fun options => (build? options).map build)
  | "check" :: tokens =>
      command? sourceForms tokens (wordless fun options => (source? options).map check)
  | "validate" :: tokens => command? validateForms tokens fun s => (validate? s).map validate
  | "help" :: _ => some help
  | _ => none

/-- What a command line asks for, unless it is a mistake in usage. -/
def parse?
    (tokens : List String) :
    Option Invocation :=
  match scan? outerForms true tokens with
  | none => none
  | some s =>
      if hasFlag s.options .version then some version
      else if hasFlag s.options .help then some help
      else ofWords? s.words

end Invocation

end Command
end Schemata
