import Schemata.Schema.Basic

/-!
# Schemas: nested declarations

A declaration with everything inside it is a tree.  `fold` is recursion on
such trees; the two orders in which the declarations of a tree are visited are
folds:

* `preorder` goes into a declaration before it goes on to the next sibling;
* `levelOrder` finishes a level before it goes deeper.
-/

namespace Schemata

/-- A declaration and the declarations inside it. -/
inductive Nesting where
  | node (id : DeclId) (inner : List Nesting)
deriving Repr

namespace Nesting

section Fold

variable {α : Type}

mutual

/-- The value of a tree, made from the values of the trees inside it. -/
def fold
    (f : DeclId → List α → α) :
    Nesting → α
  | node id inner => f id (foldAll f inner)

/-- The values of several trees. -/
def foldAll
    (f : DeclId → List α → α) :
    List Nesting → List α
  | [] => []
  | n :: rest => fold f n :: foldAll f rest

end

/-- Join lists of levels level by level. -/
def joinLevels : List (List α) → List (List α) → List (List α)
  | [], bs => bs
  | as, [] => as
  | a :: as, b :: bs => (a ++ b) :: joinLevels as bs

end Fold

/-- The declarations of a tree, each followed by what is inside it. -/
def preorder
    (n : Nesting) :
    List DeclId :=
  n.fold fun id inner => id :: inner.flatten

/-- The levels of a tree. -/
def levels
    (n : Nesting) :
    List (List DeclId) :=
  n.fold fun id inner => [id] :: inner.foldr joinLevels []

/-- The declarations of a tree, level by level. -/
def levelOrder
    (n : Nesting) :
    List DeclId :=
  n.levels.flatten

end Nesting

namespace Schema

/-- The tree of a declaration down to a depth. -/
def nestingTo
    (s : Schema) :
    Nat → DeclId → Nesting
  | 0, id => .node id []
  | depth + 1, id => .node id ((s.childrenOf id).map (nestingTo s depth))

/-- The tree of a declaration.  No declaration is deeper than there are declarations in its
package. -/
def nesting
    (s : Schema)
    (id : DeclId) :
    Nesting :=
  s.nestingTo (s.package id.package).decls.length id

/-- A declaration and all declarations inside it, parents first. -/
def withDescendants
    (s : Schema)
    (id : DeclId) :
    List DeclId :=
  (s.nesting id).levelOrder

end Schema

end Schemata
