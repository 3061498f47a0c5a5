import Schemata.Package

/-!
# Namespaces of generated code

A package keeps the parts of its name and gains one segment for its version,
chosen by a scheme: every number of the version, the major number alone, or
the fewest numbers that tell the versions of one package apart.
-/

namespace Schemata

/-- How a version becomes a segment of a namespace. -/
inductive VersionScheme where
  /-- Every number: `_1_2_3`. -/
  | underscored
  /-- The major number: `V1`. -/
  | major
  /-- As many numbers as tell the versions of a package apart: `V1`, `V1_2` or `V1_2_3`. -/
  | minimal
deriving DecidableEq, Repr

/-- The scheme with a name. -/
def VersionScheme.parse? : String → Option VersionScheme
  | "underscored" => some .underscored
  | "major" => some .major
  | "minimal" => some .minimal
  | _ => none

/-- The name of a scheme. -/
def VersionScheme.name : VersionScheme → String
  | .underscored => "underscored"
  | .major => "major"
  | .minimal => "minimal"

/-- The namespace of one package. -/
structure Namespace where
  parts : List String
  version : Option String
deriving DecidableEq, Repr

/-- Two packages with one namespace. -/
structure NamespaceCollision where
  shared : String
  first : String
  second : String
deriving DecidableEq, Repr

/-- Message of a collision. -/
def NamespaceCollision.message
    (c : NamespaceCollision) :
    String :=
  s!"packages `{c.first}` and `{c.second}` both map to namespace `{c.shared}`"

namespace Namespace

/-- All segments, the version last. -/
def segments
    (ns : Namespace) :
    List String :=
  ns.parts ++ ns.version.toList

/-- The written form of a namespace. -/
def display
    (ns : Namespace) :
    String :=
  String.intercalate "." ns.segments

/-- How many numbers of a version a segment keeps. -/
inductive Level where
  | major
  | minor
  | patch
deriving DecidableEq, Repr

/-- A pre-release as part of a segment. -/
def preText
    (v : Version) :
    String :=
  if v.pre.isEmpty then ""
  else
    "_" ++ String.ofList
      ((String.intercalate "." v.pre).toList.map fun c => if c.isAlphanum then c else '_')

/-- The segment that keeps the numbers up to a level. -/
def symbolic
    (v : Version) :
    Level → String
  | .major => s!"V{v.major}"
  | .minor => s!"V{v.major}_{v.minor}"
  | .patch => s!"V{v.major}_{v.minor}_{v.patch}" ++ preText v

/-- The segment of all numbers. -/
def underscored
    (v : Version) :
    String :=
  s!"_{v.major}_{v.minor}_{v.patch}" ++ preText v

/-- The segment of one version by itself. -/
def versionSegment
    (scheme : VersionScheme)
    (v : Version) :
    String :=
  match scheme with
  | .underscored => underscored v
  | .major | .minimal => symbolic v .major

/-- The other versions of the same package. -/
def siblings
    (packages : List Identity)
    (name : PackageName)
    (v : Version) :
    List Version :=
  packages.filterMap fun other =>
    if other.name = name then
      match other.version with
      | some w => if w = v then none else some w
      | none => none
    else none

/-- The least level at which a version differs from the other versions of its package. -/
def minimalLevel
    (packages : List Identity)
    (name : PackageName)
    (v : Version) :
    Level :=
  let others := siblings packages name v
  let tellsApart := fun level => others.all fun w => symbolic w level != symbolic v level
  if tellsApart .major then .major
  else if tellsApart .minor then .minor
  else .patch

/-- The namespace of one of several packages. -/
def ofPackage
    (scheme : VersionScheme)
    (packages : List Identity)
    (identity : Identity) :
    Namespace :=
  { parts := identity.name.parts
    version := identity.version.map fun v =>
      match scheme with
      | .minimal => symbolic v (minimalLevel packages identity.name v)
      | _ => versionSegment scheme v }

/-- One collision for each namespace that an earlier package owns; `owners` are the packages
before, each with its namespace. -/
def collisions
    (owners : List (Namespace × Identity)) :
    List (Namespace × Identity) → List NamespaceCollision
  | [] => []
  | (ns, identity) :: rest =>
      match owners.find? (·.1 = ns) with
      | some (_, first) =>
          ⟨ns.display, first.display, identity.display⟩ :: collisions owners rest
      | none => collisions (owners ++ [(ns, identity)]) rest

/-- The namespaces of several packages, in their order, unless two of them agree. -/
def assign
    (scheme : VersionScheme)
    (packages : List Identity) :
    Except (List NamespaceCollision) (List Namespace) :=
  let namespaces := packages.map (ofPackage scheme packages)
  match collisions [] (namespaces.zip packages) with
  | [] => .ok namespaces
  | errors => .error errors

end Namespace

end Schemata
