import Schemata.Resolve.Error
import Schemata.Schema.Basic

/-!
# Untagged interfaces

The cases of an untagged interface are tried in their order, and the first one
whose required keys are all present is taken.  So no two cases may have the
same required keys, no case may require a part of what a later one requires,
and no case may have as optional what another one requires.
-/

namespace Schemata
namespace Untagged

/-- The keys that a case requires. -/
def requiredKeys
    (body : InterfaceBody)
    (s : SubType) :
    List String :=
  ((body.fieldsOf s).filter (·.isRequired)).map (·.jsonName)

/-- Every key of the first list is in the second. -/
def subset
    (a b : List String) :
    Bool :=
  a.all b.contains

/-- The error of two cases of which the first comes before the second. -/
def checkPair
    (body : InterfaceBody)
    (earlier later : SubType) :
    List ResolveError :=
  let first := requiredKeys body earlier
  let second := requiredKeys body later
  if subset first second then
    if subset second first then
      [.located later.span (.untaggedAmbiguous later.name earlier.name)]
    else [.located earlier.span (.untaggedOrdering earlier.name later.name)]
  else []

/-- The errors of all pairs of cases. -/
def checkPairs
    (body : InterfaceBody) :
    List SubType → List ResolveError
  | [] => []
  | s :: rest => rest.flatMap (checkPair body s) ++ checkPairs body rest

/-- The first other case that requires a key. -/
def requiring?
    (body : InterfaceBody)
    (index : Nat)
    (key : String) :
    Option SubType :=
  (body.subTypes.zipIdx.find? fun (s, i) =>
    i != index && (requiredKeys body s).contains key).map (·.1)

/-- The errors of optional fields that other cases require. -/
def checkOptional
    (body : InterfaceBody) :
    List ResolveError :=
  body.subTypes.zipIdx.flatMap fun (s, i) =>
    ((body.fieldsOf s).filter (·.optional)).filterMap fun f =>
      (requiring? body i f.jsonName).map fun other =>
        .located f.span (.untaggedOptional s.name f.name other.name)

/-- The errors of an untagged interface. -/
def check
    (body : InterfaceBody) :
    List ResolveError :=
  checkPairs body body.subTypes ++ checkOptional body

end Untagged
end Schemata
