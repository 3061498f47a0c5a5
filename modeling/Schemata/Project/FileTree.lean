import Schemata.Path

/-!
# File trees

Directories and files by the names on the way to them, and the directory in
which relative paths start.  At most one thing stands at a place.  A path is
followed piece by piece, and each piece needs a directory to stand in.  The root
is always a directory.
-/

namespace Schemata

/-- What stands at a place. -/
inductive Node where
  | directory
  | file (text : String)
deriving DecidableEq, Repr

/-- Why a path cannot be used. -/
inductive FileError where
  | missing
  | notDirectory
  | isDirectory
deriving DecidableEq, Repr

/-- The names on the way from the root. -/
abbrev Place := List String

/-- Directories and files. -/
structure FileTree where
  /-- The place of the directory in which relative paths start. -/
  start : Place
  entries : List (Place × Node)
  /-- At most one thing stands at a place. -/
  distinct : (entries.map Prod.fst).Nodup
deriving Repr

namespace FileTree

/-- What stands at a place. -/
def node?
    (t : FileTree)
    (place : Place) :
    Option Node :=
  if place.isEmpty then some .directory else t.entries.lookup place

/-- Clear a place. -/
def erase
    (t : FileTree)
    (place : Place) :
    FileTree :=
  { t with
    entries := t.entries.filter (·.1 != place)
    distinct := t.distinct.sublist (List.filter_sublist.map Prod.fst) }

theorem notMem_erase
    (t : FileTree)
    (place : Place) :
    place ∉ (t.erase place).entries.map Prod.fst := by
  simp [erase]

/-- Put something at a place. -/
def insert
    (t : FileTree)
    (place : Place)
    (node : Node) :
    FileTree :=
  { t with
    entries := (place, node) :: (t.erase place).entries
    distinct := List.nodup_cons.mpr ⟨t.notMem_erase place, (t.erase place).distinct⟩ }

/-- Where one piece of a path leads. -/
def move
    (place : Place) :
    String → Place
  | "" => place
  | "." => place
  | ".." => place.dropLast
  | name => place ++ [name]

/-- The place where a path starts. -/
def origin
    (t : FileTree)
    (p : Path) :
    Place :=
  if p.isAbsolute then [] else t.start

/-- Follow pieces; each one needs a directory to stand in. -/
def follow
    (t : FileTree) :
    Place → List String → Except FileError Place
  | place, [] => .ok place
  | place, piece :: rest =>
      match t.node? place with
      | some .directory => follow t (move place piece) rest
      | some (.file _) => .error .notDirectory
      | none => .error .missing

/-- The place that a path names, whether or not something stands there. -/
def locate
    (t : FileTree)
    (p : Path) :
    Except FileError Place :=
  if p.text.isEmpty then .error .missing else t.follow (t.origin p) p.pieces

/-- The path names a directory. -/
def isDirectory
    (t : FileTree)
    (p : Path) :
    Bool :=
  match t.locate p with
  | .ok place => t.node? place == some .directory
  | .error _ => false

/-- The text of a file. -/
def read
    (t : FileTree)
    (p : Path) :
    Except FileError String :=
  match t.locate p with
  | .error e => .error e
  | .ok place =>
      match t.node? place with
      | some (.file text) => .ok text
      | some .directory => .error .isDirectory
      | none => .error .missing

/-- Write a file into a directory that exists. -/
def write
    (t : FileTree)
    (p : Path)
    (text : String) :
    Except FileError FileTree :=
  match t.locate p with
  | .error e => .error e
  | .ok place =>
      if t.node? place = some .directory then .error .isDirectory
      else .ok (t.insert place (.file text))

/-- Remove a file. -/
def remove
    (t : FileTree)
    (p : Path) :
    Except FileError FileTree :=
  match t.locate p with
  | .error e => .error e
  | .ok place =>
      match t.node? place with
      | some (.file _) => .ok (t.erase place)
      | some .directory => .error .isDirectory
      | none => .error .missing

/-- Follow pieces and make the directories that are missing. -/
def makeAlong
    (t : FileTree) :
    Place → List String → FileTree × Except FileError Unit
  | _, [] => (t, .ok ())
  | place, piece :: rest =>
      let next := move place piece
      match t.node? next with
      | some .directory => makeAlong t next rest
      | some (.file _) => (t, .error .notDirectory)
      | none => makeAlong (t.insert next .directory) next rest

/-- Make a directory and all that is missing on the way to it. -/
def makeDirectories
    (t : FileTree)
    (p : Path) :
    FileTree × Except FileError Unit :=
  t.makeAlong (t.origin p) p.pieces

/-- Write a file and make the directories that are missing on the way to it. -/
def writeDeep
    (t : FileTree)
    (p : Path)
    (text : String) :
    FileTree × Except FileError Unit :=
  match t.makeDirectories (p.parent?.getD ⟨""⟩) with
  | (made, .error e) => (made, .error e)
  | (made, .ok ()) =>
      match made.write p text with
      | .ok written => (written, .ok ())
      | .error e => (made, .error e)

/-- The names on the way from a place to a file below it. -/
def below?
    (place : Place) :
    Place × Node → Option (List String)
  | (other, .file _) => if other = place then none else place.isPrefixOf? other
  | (_, .directory) => none

/-- The files below a directory, by the names on the way from it, in the order of names. -/
def filesBelow
    (t : FileTree)
    (p : Path) :
    List (List String) :=
  match t.locate p with
  | .error _ => []
  | .ok place => (t.entries.filterMap (below? place)).mergeSort Path.namesLe

/-- The files below a directory as texts, in the order of the texts. -/
def listing
    (t : FileTree)
    (p : Path) :
    List String :=
  ((t.filesBelow p).map fun names => (Path.ofNames names).text).mergeSort (· ≤ ·)

/-- A tree that has only the directory in which paths start. -/
def empty
    (start : Place) :
    FileTree :=
  (FileTree.mk start [] List.nodup_nil).makeAlong [] start |>.1

end FileTree

end Schemata
