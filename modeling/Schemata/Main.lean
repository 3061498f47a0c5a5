import Schemata.Command.Run

/-!
# The program

The files that a command may read are put into a tree, the command runs on the
tree, and the files that it has written go back.
-/

namespace Schemata
namespace Main

open Command

/-- What is said about sources, if the command reads any. -/
def sourceArguments? : Invocation → Option SourceArguments
  | .build a => some a.source
  | .check a => some a
  | .validate a => some a.source
  | _ => none

/-- The document that the command reads from a file. -/
def inputPath? : Invocation → Option Path
  | .validate a => a.input
  | _ => none

/-- The command reads a document from standard input. -/
def readsInput : Invocation → Bool
  | .validate a => a.input.all (·.components == [.name "-"])
  | _ => false

/-- The files in which the configuration may be. -/
def configPaths
    (env : Environment)
    (a : SourceArguments) :
    List Path :=
  [env.configHome.join Config.globalFile, a.config.getD (env.root.join Config.projectFile)]

/-- The files of the second tree that the first one does not have. -/
def written
    (before after : FileTree) :
    List (Place × String) :=
  after.entries.filterMap fun (place, node) =>
    match node with
    | .file text => if before.node? place = some node then none else some (place, text)
    | .directory => none

/-- The path of a place. -/
def placePath
    (place : Place) :
    Path :=
  ⟨"/" ++ String.intercalate "/" place⟩

/-- Put a file into the tree, if there is one. -/
def addFile
    (t : FileTree)
    (path : Path) :
    IO FileTree := do
  try
    let text ← IO.FS.readFile ⟨path.text⟩
    return (t.writeDeep path text).1
  catch _ => return t

/-- Put the sources below a directory into the tree. -/
partial def addSources
    (t : FileTree)
    (path : Path) :
    IO FileTree := do
  let directory := (← IO.currentDir) / path.text
  if !(← directory.isDir) then return t
  let mut t := (t.makeDirectories path).1
  for entry in ← directory.readDir do
    let inner := path.join ⟨entry.fileName⟩
    if ← entry.path.isDir then
      t ← addSources t inner
    else if (Path.cutExtension entry.fileName).2 == some sourceExtension then
      t ← addFile t inner
  return t

/-- Write a file and the directories on the way to it. -/
def writeFile
    (path : Path)
    (text : String) :
    IO Unit := do
  IO.FS.createDirAll ⟨(path.parent?.getD path).text⟩
  IO.FS.writeFile ⟨path.text⟩ text

/-- The directory of all configurations. -/
def configHome : IO Path := do
  match ← IO.getEnv "XDG_CONFIG_HOME" with
  | some home => return ⟨home⟩
  | none => return (Path.mk ((← IO.getEnv "HOME").getD "")).join ⟨".config"⟩

/-- Everything on standard input. -/
partial def readInput
    (stream : IO.FS.Stream)
    (before : String) :
    IO String := do
  let line ← stream.getLine
  if line.isEmpty then return before else readInput stream (before ++ line)

/-- The tree of all that a command may read. -/
def gather
    (env : Environment)
    (invocation : Invocation) :
    IO FileTree := do
  let mut t := FileTree.empty ((env.root.pieces).filter (!·.isEmpty))
  if let some a := sourceArguments? invocation then
    for path in configPaths env a do
      t ← addFile t path
    if let .ok settings := settings env t a then
      for path in settings.paths do
        t ← addSources t path
  if let some path := inputPath? invocation then
    t ← addFile t path
  return t

/-- Run a command and show what it has to say. -/
def execute
    (env : Environment)
    (invocation : Invocation) :
    IO UInt32 := do
  let before ← gather env invocation
  let (after, outcome) := invocation.run env before
  for (place, text) in written before after do
    try writeFile (placePath place) text
    catch _ =>
      IO.eprintln (Outcome.errorLine s!"failed to write `{(placePath place).text}`")
      return 1
  outcome.problems.forM IO.eprintln
  IO.print outcome.output
  return outcome.code.toUInt32

end Main
end Schemata

/-- Run the command line. -/
def main
    (tokens : List String) :
    IO UInt32 := do
  match Schemata.Command.Invocation.parse? tokens with
  | none =>
      IO.eprint Schemata.Command.helpText
      return 2
  | some invocation =>
      let input ←
        if Schemata.Main.readsInput invocation then
          Schemata.Main.readInput (← IO.getStdin) ""
        else pure ""
      let env : Schemata.Command.Environment :=
        { root := ⟨(← IO.currentDir).toString⟩
          configHome := ← Schemata.Main.configHome
          input }
      Schemata.Main.execute env invocation
