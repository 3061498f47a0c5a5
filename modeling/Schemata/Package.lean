import Schemata.Version.Range

/-!
# Packages

A package has a dotted name and perhaps a version; the two together are its
identity.  A request names a package and perhaps a range of versions.
`Request.select` answers it from a list of identities: with a range, the
greatest version wins; without one, the answer must be the only match.
-/

namespace Schemata

/-- A dotted package name. -/
structure PackageName where
  parts : List String
deriving DecidableEq, Repr

namespace PackageName

/-- A part of a package name: a small letter, then small letters, digits and underscores. -/
def isPart
    (part : String) :
    Bool :=
  match part.toList with
  | [] => false
  | c :: cs =>
      c.isLower && cs.all fun d => d.isLower || Text.isDigit d || d == '_'

/-- Read a dotted name. -/
def parse?
    (text : String) :
    Option PackageName :=
  let parts := Text.split '.' text
  if parts.all isPart then some ⟨parts⟩ else none

/-- The written form of a name. -/
def display
    (name : PackageName) :
    String :=
  String.intercalate "." name.parts

/-- The last part of a name. -/
def last
    (name : PackageName) :
    String :=
  name.parts.getLastD ""

end PackageName

/-- A package name with its version, if it has one. -/
structure Identity where
  name : PackageName
  version : Option Version
deriving DecidableEq, Repr

/-- The written form of an identity: `name@version`, or `name` alone. -/
def Identity.display
    (identity : Identity) :
    String :=
  match identity.version with
  | some version => s!"{identity.name.display}@{version.display}"
  | none => identity.name.display

/-- A wish for a package. -/
structure Request where
  name : PackageName
  range : Option VersionRange
deriving DecidableEq, Repr

/-- The answer to a request: the position of a package, none, or too many to choose from. -/
inductive Selection where
  | found (index : Nat)
  | missing
  | ambiguous (indices : List Nat)
deriving DecidableEq, Repr

namespace Request

/-- The written form of a request. -/
def display
    (request : Request) :
    String :=
  match request.range with
  | some range => s!"{request.name.display} \"{range.display}\""
  | none => request.name.display

/-- The identity answers the request. -/
def accepts
    (request : Request)
    (identity : Identity) :
    Bool :=
  request.name == identity.name
    && match request.range, identity.version with
      | none, _ => true
      | some range, some version => range.accepts version
      | some _, none => false

/-- Order of versions that may be missing: a missing one comes first. -/
def compareVersions : Option Version → Option Version → Ordering
  | none, none => .eq
  | none, some _ => .lt
  | some _, none => .gt
  | some a, some b => a.cmp b

/-- The positions of the identities that answer the request. -/
def candidates
    (request : Request)
    (installed : List Identity) :
    List (Nat × Identity) :=
  (installed.zipIdx.filter fun (identity, _) => request.accepts identity).map
    fun (identity, index) => (index, identity)

/-- The candidate of the greatest version, the last of equals. -/
def greatest
    (best : Nat × Identity) :
    List (Nat × Identity) → Nat × Identity
  | [] => best
  | next :: rest =>
      match compareVersions best.2.version next.2.version with
      | .gt => greatest best rest
      | _ => greatest next rest

/-- Choose the package that answers a request. -/
def select
    (request : Request)
    (installed : List Identity) :
    Selection :=
  match request.candidates installed with
  | [] => .missing
  | [only] => .found only.1
  | first :: rest =>
      match request.range with
      | none => .ambiguous ((first :: rest).map (·.1))
      | some _ => .found (greatest first rest).1

end Request

end Schemata
