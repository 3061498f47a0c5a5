import Schemata.Namespace
import Schemata.Source

/-!
# Errors and warnings of resolution
-/

namespace Schemata

/-- Why files do not make a schema. -/
inductive ResolveProblem where
  | duplicatePackage (package : String)
  | invalidVersionRange (range message : String)
  | unresolvedPackage (package : String)
  | ambiguousVersion (package : String) (candidates : List String)
  | duplicateImport (name : String)
  | unresolvedReference (name : String)
  | duplicateName (what name : String)
  | duplicateJsonName (name : String)
  | duplicateEnumValue (value : String)
  | invalidEnumType (found : String)
  | invalidEnumValue (member message : String)
  | duplicateDiscriminator (literal : String)
  | invalidDiscriminator (found : String)
  | tagConflict (tag field : String)
  | unknownAttribute (name : String)
  | invalidAttribute (message : String)
  | untaggedAmbiguous (subType other : String)
  | untaggedOrdering (subType later : String)
  | untaggedOptional (subType field other : String)
  | optionalTupleField (field : String)
  | invalidMapKey (found : String)
  | namespaceCollision (collision : NamespaceCollision)
deriving DecidableEq, Repr

/-- A problem, its place, and the place of what it repeats. -/
structure ResolveError where
  problem : ResolveProblem
  span : Option Span
  previous : Option Span
deriving DecidableEq, Repr

/-- A cycle of required fields: the paths of its declarations, the first repeated at the end. -/
structure RequiredCycle where
  path : List String
  span : Span
deriving DecidableEq, Repr

/-- Message of a problem. -/
def ResolveProblem.message : ResolveProblem → String
  | duplicatePackage package => s!"package `{package}` is defined more than once"
  | invalidVersionRange range message => s!"invalid version range `{range}`: {message}"
  | unresolvedPackage package => s!"no installed package matches `{package}`"
  | ambiguousVersion package candidates =>
      s!"`{package}` is ambiguous, installed versions: " ++ String.intercalate ", " candidates
  | duplicateImport name => s!"import `{name}` is defined more than once"
  | unresolvedReference name => s!"cannot find `{name}` in this scope"
  | duplicateName what name => s!"{what} `{name}` is defined more than once"
  | duplicateJsonName name => s!"JSON name `{name}` is used by more than one field"
  | duplicateEnumValue value => s!"enum value {value} is used by more than one member"
  | invalidEnumType found =>
      s!"enums must be `string`, `u32`, `u64`, `i32` or `i64`, found {found}"
  | invalidEnumValue member message => s!"invalid value for enum member `{member}`: {message}"
  | duplicateDiscriminator literal => s!"sub-type literal `{literal}` is used more than once"
  | invalidDiscriminator found => s!"sub-type literals must be strings, found {found}"
  | tagConflict tag field => s!"discriminator `{tag}` conflicts with field `{field}`"
  | unknownAttribute name => s!"unknown attribute `{name}`"
  | invalidAttribute message => message
  | untaggedAmbiguous subType other =>
      s!"sub-type `{subType}` does not have a unique set of required fields, it matches `{other}`"
  | untaggedOrdering subType later =>
      s!"sub-type `{subType}` would always match before `{later}`, declare it after `{later}`"
  | untaggedOptional subType field other =>
      s!"field `{field}` of `{subType}` is optional but required in `{other}`"
  | optionalTupleField field => s!"tuple field `{field}` cannot be optional"
  | invalidMapKey found => s!"map keys must be `string` or an integer type, found {found}"
  | namespaceCollision collision => collision.message

namespace ResolveError

/-- A problem at a place. -/
def located
    (span : Span)
    (problem : ResolveProblem) :
    ResolveError :=
  ⟨problem, some span, none⟩

/-- A problem at a place that repeats what stands at an earlier one. -/
def repeated
    (span previous : Span)
    (problem : ResolveProblem) :
    ResolveError :=
  ⟨problem, some span, some previous⟩

/-- Message of an error. -/
def message
    (e : ResolveError) :
    String :=
  e.problem.message

end ResolveError

/-- Message of a warning. -/
def RequiredCycle.message
    (w : RequiredCycle) :
    String :=
  "required fields form a cycle (" ++ String.intercalate " -> " w.path ++ "), no value of `"
    ++ w.path.headD "" ++ "` can be constructed"

end Schemata
