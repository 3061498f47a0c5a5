import Schemata.Project.FileTree
import Schemata.Resolve.Basic
import Schemata.Toml.Parser

/-!
# Configuration

A project may be configured in a file of its own, and a user in a global one;
what the project says wins.  Relative paths in the file of a project start
where that file is.  Settings are what a configuration says, with defaults for
the rest.
-/

namespace Schemata

/-- Where sources are and what is built. -/
structure BuildConfig where
  paths : Option (List Path)
  output : Option Path
  targets : Option (List String)
  packages : Option (List String)
deriving DecidableEq, Repr

/-- The shape of generated code. -/
structure CodegenConfig where
  scheme : Option VersionScheme
  discriminator : Option String
  placement : Option Placement
deriving DecidableEq, Repr

/-- A configuration; anything may be left open. -/
structure Config where
  build : BuildConfig
  codegen : CodegenConfig
deriving DecidableEq, Repr

/-- A configuration that cannot be used. -/
inductive ConfigError where
  | read (path : Path)
  | parse (path : Path)
deriving DecidableEq, Repr

/-- Message of an error. -/
def ConfigError.message : ConfigError → String
  | read path => s!"failed to read config `{path.text}`"
  | parse path => s!"invalid config `{path.text}`"

namespace Config

/-- The configuration that says nothing. -/
def empty : Config :=
  { build := ⟨none, none, none, none⟩
    codegen := ⟨none, none, none⟩ }

/-- The keys of the section about the build. -/
def buildKeys : List String :=
  ["paths", "output", "targets", "packages"]

/-- The keys of the section about generated code. -/
def codegenKeys : List String :=
  ["version-scheme", "discriminator", "discriminator-placement"]

/-- The entries of a section; an array gives the values in the order of `keys`, and no other keys
are known. -/
def section?
    (root : List (String × Toml.Value))
    (name : String)
    (keys : List String) :
    Option (List (String × Toml.Value)) :=
  match root.lookup name with
  | none => some []
  | some (.table entries) =>
      if (entries.map (·.1)).all keys.contains then some entries else none
  | some (.array items) => some (keys.zip items)
  | some (.text _) => none

/-- A text. -/
def text? : Toml.Value → Option String
  | .text text => some text
  | _ => none

/-- An array of texts. -/
def texts? : Toml.Value → Option (List String)
  | .array items => items.mapM text?
  | _ => none

/-- One of several choices: its name, or a table that has nothing but its name, with nothing
inside. -/
def choice?
    {α : Type}
    (parse? : String → Option α) :
    Toml.Value → Option α
  | .text name => parse? name
  | .table [(name, .table [])] => parse? name
  | .table [(name, .array [])] => parse? name
  | _ => none

/-- The value of a key, if the section has the key; the value must be readable. -/
def field?
    {α : Type}
    (read : Toml.Value → Option α)
    (entries : List (String × Toml.Value))
    (key : String) :
    Option (Option α) :=
  match entries.lookup key with
  | none => some none
  | some value => (read value).map some

/-- The section about the build. -/
def build?
    (root : List (String × Toml.Value)) :
    Option BuildConfig := do
  let entries ← section? root "build" buildKeys
  return {
    paths := ← field? (fun v => (texts? v).map (·.map Path.mk)) entries "paths"
    output := ← field? (fun v => (text? v).map Path.mk) entries "output"
    targets := ← field? texts? entries "targets"
    packages := ← field? texts? entries "packages" }

/-- The section about generated code. -/
def codegen?
    (root : List (String × Toml.Value)) :
    Option CodegenConfig := do
  let entries ← section? root "codegen" codegenKeys
  return {
    scheme := ← field? (choice? VersionScheme.parse?) entries "version-scheme"
    discriminator := ← field? text? entries "discriminator"
    placement := ← field? (choice? Placement.parse?) entries "discriminator-placement" }

/-- The name of a section. -/
def isSection
    (name : String) :
    Bool :=
  name == "build" || name == "codegen"

/-- The configuration in a text. -/
def parse?
    (text : String) :
    Option Config := do
  let root ← Toml.parse? text
  if (root.map (·.1)).all isSection then
    return { build := ← build? root, codegen := ← codegen? root }
  else none

/-- The configuration in a file. -/
def readText
    (path : Path)
    (text : String) :
    Except ConfigError Config :=
  match parse? text with
  | some config => .ok config
  | none => .error (.parse path)

/-- The configuration in a file that must exist. -/
def readFile
    (t : FileTree)
    (path : Path) :
    Except ConfigError Config :=
  match t.read path with
  | .ok text => readText path text
  | .error _ => .error (.read path)

/-- The configuration in a file, if the file exists. -/
def readFile?
    (t : FileTree)
    (path : Path) :
    Except ConfigError (Option Config) :=
  match t.read path with
  | .ok text => (readText path text).map some
  | .error .missing => .ok none
  | .error _ => .error (.read path)

/-- What either configuration says; where both do, the second one wins. -/
def merge
    (first second : Config) :
    Config :=
  { build :=
      { paths := second.build.paths.or first.build.paths
        output := second.build.output.or first.build.output
        targets := second.build.targets.or first.build.targets
        packages := second.build.packages.or first.build.packages }
    codegen :=
      { scheme := second.codegen.scheme.or first.codegen.scheme
        discriminator := second.codegen.discriminator.or first.codegen.discriminator
        placement := second.codegen.placement.or first.codegen.placement } }

/-- The configuration with its paths starting at `base`. -/
def rebase
    (base : Path)
    (c : Config) :
    Config :=
  { c with
    build :=
      { c.build with
        paths := c.build.paths.map (·.map base.join)
        output := c.build.output.map base.join } }

/-- The name of the file that configures a project. -/
def projectFile : Path :=
  ⟨"reproto.toml"⟩

/-- The place of the global configuration below the directory of all configurations. -/
def globalFile : Path :=
  ⟨"reproto/config.toml"⟩

/-- The configuration of the project itself, from the file that was asked for, or from its own
file if there is one. -/
def loadProject
    (t : FileTree)
    (root : Path)
    (explicit : Option Path) :
    Except ConfigError (Option Config) :=
  let path := explicit.getD (root.join projectFile)
  let base := path.parent?.getD root
  let config :=
    match explicit with
    | some path => (readFile t path).map some
    | none => readFile? t path
  config.map fun found => found.map (rebase base)

/-- The configuration of a project, where `home` is the directory of all configurations. -/
def load
    (t : FileTree)
    (home root : Path)
    (explicit : Option Path) :
    Except ConfigError Config :=
  match readFile? t (home.join globalFile) with
  | .error e => .error e
  | .ok general =>
      match loadProject t root explicit with
      | .error e => .error e
      | .ok project => .ok (merge (general.getD empty) (project.getD empty))

end Config

/-- Everything that a build needs to know. -/
structure Settings where
  paths : List Path
  output : Path
  /-- Names of backends; none stand for all of them. -/
  targets : List String
  /-- Selectors of packages; none stand for all of them. -/
  packages : List String
  resolve : ResolveOptions
  placement : Placement
deriving Repr

namespace Settings

/-- What is used where nothing is said. -/
def default : Settings :=
  { paths := [⟨"proto"⟩]
    output := ⟨"target/reproto"⟩
    targets := []
    packages := []
    resolve := ⟨.underscored, "type"⟩
    placement := .last }

/-- The settings of a configuration. -/
def ofConfig
    (c : Config) :
    Settings :=
  { paths := c.build.paths.getD default.paths
    output := c.build.output.getD default.output
    targets := c.build.targets.getD default.targets
    packages := c.build.packages.getD default.packages
    resolve :=
      { scheme := c.codegen.scheme.getD default.resolve.scheme
        defaultTag := c.codegen.discriminator.getD default.resolve.defaultTag }
    placement := c.codegen.placement.getD default.placement }

end Settings

end Schemata
