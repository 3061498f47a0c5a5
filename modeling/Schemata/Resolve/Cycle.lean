import Schemata.Component
import Schemata.Resolve.Error
import Schemata.Schema.Lookup

/-!
# Cycles of required fields

A type or tuple that needs a value of itself to be built has no values.  The
graph of types and tuples has an edge for each required field whose type is
directly another type or tuple; arrays, maps and optional fields break cycles.
Each component of declarations that need each other gives one warning.
-/

namespace Schemata
namespace Cycle

/-- The types and tuples of a schema. -/
def nodes
    (s : Schema) :
    List DeclId :=
  s.ids.filter fun id => (s.decl id).body.isStruct

/-- The types and tuples that a declaration directly needs. -/
def edges
    (s : Schema)
    (id : DeclId) :
    List DeclId :=
  ((s.decl id).fields.filter (·.isRequired)).filterMap fun f =>
    match f.type with
    | .decl target => if (s.decl target).body.isStruct then some target else none
    | _ => none

/-- The components of the graph. -/
def components
    (s : Schema) :
    List (List DeclId) :=
  Component.all (edges s) (nodes s)

/-- A component of several declarations, or of one that needs itself. -/
def isCyclic
    (s : Schema)
    (members : List DeclId) :
    Bool :=
  1 < members.length || members.head?.any fun id => (edges s id).contains id

/-- The components with a cycle, each in the order of its places. -/
def cycles
    (s : Schema) :
    List (List DeclId) :=
  ((components s).filter (isCyclic s)).map (·.mergeSort DeclId.le)

/-- The warning of a component. -/
def warning
    (s : Schema)
    (first : DeclId)
    (rest : List DeclId) :
    RequiredCycle :=
  { path := (first :: rest ++ [first]).map fun id => String.intercalate "::" (s.declPath id)
    span := (s.decl first).span }

/-- Order of warnings: by file, then by place. -/
def precedes
    (a b : RequiredCycle) :
    Bool :=
  a.span.file < b.span.file || (a.span.file == b.span.file && a.span.start ≤ b.span.start)

/-- The warnings of a schema. -/
def warnings
    (s : Schema) :
    List RequiredCycle :=
  let found := (cycles s).filterMap fun members =>
    match members with
    | first :: rest => some (warning s first rest)
    | [] => none
  found.mergeSort precedes

end Cycle
end Schemata
