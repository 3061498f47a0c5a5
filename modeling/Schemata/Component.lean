/-!
# Components of a graph

Nodes that lead to each other belong to one component.  One search of a graph
given by successors finds all components.  It numbers the nodes in the order in
which it enters them and keeps the nodes whose component is not complete on a
stack.  Of each node that it is following it notes the least number of a node
on the stack that it has come back to; a node that is left with its own number
closes its component, which is the node and all that stand above it.

The nodes that are being followed are frames in a list, innermost first, so
that a step is a plain function of the search.
-/

namespace Schemata
namespace Component

/-- A node that is being followed. -/
structure Frame (α : Type) where
  node : α
  /-- The least number on the stack that the search came back to from here. -/
  low : Nat
  /-- The successors that are left. -/
  targets : List α

/-- A search that is under way. -/
structure Search (α : Type) where
  /-- The nodes that were entered, in order.  The place of a node is its number. -/
  entered : List α
  /-- The nodes without a complete component, the last one that was entered first. -/
  stack : List α
  /-- The nodes that are being followed, innermost first. -/
  frames : List (Frame α)
  /-- The components that are complete. -/
  found : List (List α)

/-- Lower the number that the innermost frame came back to. -/
def lower
    {α : Type}
    (number : Nat) :
    List (Frame α) → List (Frame α)
  | [] => []
  | f :: outer => { f with low := min f.low number } :: outer

namespace Search

variable {α : Type}

/-- The search before anything is entered. -/
def start : Search α :=
  { entered := []
    stack := []
    frames := []
    found := [] }

variable [BEq α]

/-- The number of a node that was entered. -/
def number
    (st : Search α)
    (a : α) :
    Nat :=
  st.entered.idxOf a

/-- Begin to follow a node. -/
def enter
    (next : α → List α)
    (st : Search α)
    (a : α) :
    Search α :=
  { st with
    entered := st.entered ++ [a]
    stack := a :: st.stack
    frames := ⟨a, st.entered.length, next a⟩ :: st.frames }

/-- Complete the component of a node on the stack. -/
def close
    (st : Search α)
    (a : α) :
    Search α :=
  { st with
    stack := (st.stack.dropWhile (· != a)).tail
    found := st.found ++ [st.stack.takeWhile (· != a) ++ [a]] }

/-- One step: follow the next successor of the innermost frame, or leave the frame. -/
def step
    (next : α → List α)
    (st : Search α) :
    Search α :=
  match st.frames with
  | [] => st
  | f :: outer =>
      match f.targets with
      | [] =>
          let left := { st with frames := lower f.low outer }
          if f.low == st.number f.node then left.close f.node else left
      | b :: targets =>
          let frames := { f with targets } :: outer
          if st.entered.contains b then
            if st.stack.contains b then { st with frames := lower (st.number b) frames }
            else { st with frames }
          else { st with frames }.enter next b

/-- Take steps until no frame is left.  The first argument bounds their number. -/
def run
    (next : α → List α) :
    Nat → Search α → Search α
  | 0, st => st
  | steps + 1, st => if st.frames.isEmpty then st else run next steps (st.step next)

/-- Enter a node, unless it was, and follow it to the end. -/
def visit
    (next : α → List α)
    (steps : Nat)
    (st : Search α)
    (a : α) :
    Search α :=
  if st.entered.contains a then st else (st.enter next a).run next steps

end Search

/-- The steps of a search: each node is left once, and each of its successors is followed once. -/
def bound
    {α : Type}
    (next : α → List α)
    (nodes : List α) :
    Nat :=
  nodes.length + (nodes.flatMap next).length

/-- The components of a graph, where `nodes` are all its nodes. -/
def all
    {α : Type}
    [BEq α]
    (next : α → List α)
    (nodes : List α) :
    List (List α) :=
  (nodes.foldl (Search.visit next (bound next nodes)) Search.start).found

end Component
end Schemata
