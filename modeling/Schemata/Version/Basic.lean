import Schemata.Text.Basic

/-!
# Semantic versions

A version has three numbers, a pre-release and build metadata; the last two
are lists of identifiers, empty when absent.

Versions are ordered by their numbers, then by pre-release (a version without
one comes after all that have one), then by build metadata (a version without
any comes first).  Identifiers of digits come before others and are ordered by
value, with fewer leading zeros first; other identifiers are ordered as texts;
of two lists of which one begins the other, the longer is greater.
-/

namespace Schemata

/-- A semantic version. -/
structure Version where
  major : Nat
  minor : Nat
  patch : Nat
  pre : List String
  build : List String
deriving DecidableEq, Repr

namespace Version

/-- The written form of the identifiers after a mark; nothing if there are none. -/
def displayIdentifiers
    (mark : String)
    (identifiers : List String) :
    String :=
  if identifiers.isEmpty then "" else mark ++ String.intercalate "." identifiers

/-- The written form of a version. -/
def display
    (v : Version) :
    String :=
  s!"{v.major}.{v.minor}.{v.patch}"
    ++ displayIdentifiers "-" v.pre
    ++ displayIdentifiers "+" v.build

/-- Order of two identifiers. -/
def compareIdentifier
    (a b : String) :
    Ordering :=
  let numericA := a.toList.all Text.isDigit
  let numericB := b.toList.all Text.isDigit
  match numericA, numericB with
  | false, true => .gt
  | true, false => .lt
  | false, false => compare a b
  | true, true =>
      (compare (Text.digitsValue a.toList) (Text.digitsValue b.toList)).then
        (compare a.length b.length)

/-- Order of two lists of identifiers. -/
def compareIdentifiers : List String → List String → Ordering
  | [], [] => .eq
  | [], _ :: _ => .lt
  | _ :: _, [] => .gt
  | a :: as, b :: bs => (compareIdentifier a b).then (compareIdentifiers as bs)

/-- Order of two pre-releases: none is the greatest. -/
def comparePre
    (a b : List String) :
    Ordering :=
  match a, b with
  | [], [] => .eq
  | [], _ :: _ => .gt
  | _ :: _, [] => .lt
  | _, _ => compareIdentifiers a b

/-- Order of two versions. -/
def cmp
    (a b : Version) :
    Ordering :=
  (compare a.major b.major).then
    ((compare a.minor b.minor).then
      ((compare a.patch b.patch).then
        ((comparePre a.pre b.pre).then
          (compareIdentifiers a.build b.build))))

end Version

end Schemata
