import Schemata.Text.Basic

/-!
# Paths

A path is the text that was written.  Its pieces are what stands between
slashes; empty pieces, and dots that are not in front, name nothing.  `join`
keeps both texts as they are, while `components`, `parent?` and `relativeTo?`
go by the pieces that name something.
-/

namespace Schemata

/-- A path as it was written. -/
structure Path where
  text : String
deriving DecidableEq, Repr

namespace Path

/-- A step of a path. -/
inductive Component where
  | root
  | current
  | parent
  | name (text : String)
deriving DecidableEq, Repr

/-- The written form of a step. -/
def Component.text : Component → String
  | root => "/"
  | current => "."
  | parent => ".."
  | name text => text

/-- The step that a piece names, unless it stands in front. -/
def component? : String → Option Component
  | "" => none
  | "." => none
  | ".." => some .parent
  | text => some (.name text)

/-- The step that the first piece names, where `rest` are the pieces after it. -/
def firstComponent?
    (first : String)
    (rest : List String) :
    Option Component :=
  if first.isEmpty then if rest.isEmpty then none else some .root
  else if first = "." then some .current
  else component? first

/-- What stands between slashes. -/
def pieces
    (p : Path) :
    List String :=
  Text.split '/' p.text

/-- The steps of a path. -/
def components
    (p : Path) :
    List Component :=
  match p.pieces with
  | [] => []
  | first :: rest => (firstComponent? first rest).toList ++ rest.filterMap component?

/-- The path starts at the root of all directories. -/
def isAbsolute
    (p : Path) :
    Bool :=
  p.text.toList.head? == some '/'

/-- A path continued by another one; an absolute path stands for itself. -/
def join
    (p q : Path) :
    Path :=
  if q.isAbsolute then q
  else if p.text.isEmpty || p.text.toList.getLast? == some '/' then ⟨p.text ++ q.text⟩
  else ⟨p.text ++ "/" ++ q.text⟩

/-- The path that leads along some names. -/
def ofNames
    (names : List String) :
    Path :=
  ⟨String.intercalate "/" names⟩

/-- Pieces that name nothing are dropped from the end. -/
def trimEnd
    (pieces : List String) :
    List String :=
  (pieces.reverse.dropWhile fun piece => (component? piece).isNone).reverse

/-- The path with a first piece and more pieces. -/
def ofPieces
    (first : String)
    (rest : List String) :
    Path :=
  if first.isEmpty && rest.isEmpty then ⟨"/"⟩ else ofNames (first :: rest)

/-- The path without its last step, unless that is the root. -/
def parent?
    (p : Path) :
    Option Path :=
  match p.pieces with
  | [] => none
  | first :: rest =>
      let kept := trimEnd rest
      if kept.isEmpty then if first.isEmpty then none else some ⟨""⟩
      else some (ofPieces first (trimEnd kept.dropLast))

/-- Drop the pieces of some steps. -/
def dropSteps : Nat → List String → List String
  | 0, pieces => pieces
  | _ + 1, [] => []
  | n + 1, piece :: rest =>
      if (component? piece).isSome then dropSteps n rest else dropSteps (n + 1) rest

/-- The rest of a path whose first steps are those of `base`. -/
def relativeTo?
    (p base : Path) :
    Option Path :=
  if base.components.isPrefixOf p.components then
    match p.pieces, base.components.length with
    | [], _ => none
    | [""], _ => some p
    | first :: rest, 0 => some (ofPieces first (trimEnd rest))
    | _ :: rest, n + 1 =>
        let below := (dropSteps n rest).dropWhile fun piece => (component? piece).isNone
        some (ofNames (trimEnd below))
  else none

/-- The name at the end of a path. -/
def fileName?
    (p : Path) :
    Option String :=
  match p.components.getLast? with
  | some (.name text) => some text
  | _ => none

/-- A file name cut at its last dot, unless it starts with that dot. -/
def cutExtension
    (name : String) :
    String × Option String :=
  match Text.cutAt? ['.'] name.toList.reverse with
  | some (_, []) | none => (name, none)
  | some (extension, stem) => (String.ofList stem.reverse, some (String.ofList extension.reverse))

/-- Order of lists of names, name by name. -/
def namesLe : List String → List String → Bool
  | [], _ => true
  | _ :: _, [] => false
  | a :: as, b :: bs => a < b || (a == b && namesLe as bs)

end Path

end Schemata
