import Schemata.Target.CSharp
import Schemata.Target.JavaScript
import Schemata.Target.Swift
import Schemata.Project.Error

/-!
# Targets

The backends there are, and their choice by name.
-/

namespace Schemata
namespace Target

/-- All backends. -/
def all : List Backend :=
  [csharp, swift, javascript]

/-- The names of all backends. -/
def names : List String :=
  all.map (·.name)

/-- The backend with a name. -/
def find?
    (name : String) :
    Option Backend :=
  all.find? (·.name == name)

/-- The backends with some names, in the order of the names. -/
def findAll : List String → Except LoadError (List Backend)
  | [] => .ok []
  | name :: rest =>
      match find? name with
      | none => .error (.unknownTarget name names)
      | some b =>
          match findAll rest with
          | .ok bs => .ok (b :: bs)
          | .error e => .error e

/-- The backends with some names; no names stand for all backends. -/
def select
    (targets : List String) :
    Except LoadError (List Backend) :=
  if targets.isEmpty then .ok all else findAll targets

end Target
end Schemata
