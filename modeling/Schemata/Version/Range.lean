import Schemata.Version.Parser

/-!
# Version ranges

A range is a list of comparators, all of which a version must satisfy; the
range of any version has none.  A version with a pre-release additionally
needs a comparator of the same three numbers that has a pre-release itself.
-/

namespace Schemata

/-- How a comparator relates versions to its own. -/
inductive RangeOp where
  | exact
  | greater
  | greaterEq
  | less
  | lessEq
  | tilde
  | caret
  | wildcard
deriving DecidableEq, Repr

/-- A comparator: an operator and a version of which the last parts may be missing. -/
structure Comparator where
  op : RangeOp
  major : Nat
  minor : Option Nat
  patch : Option Nat
  pre : List String
deriving DecidableEq, Repr

/-- A version range. -/
structure VersionRange where
  comparators : List Comparator
deriving DecidableEq, Repr

/-- The sign of an operator. -/
def RangeOp.sign : RangeOp → String
  | .exact => "="
  | .greater => ">"
  | .greaterEq => ">="
  | .less => "<"
  | .lessEq => "<="
  | .tilde => "~"
  | .caret => "^"
  | .wildcard => ""

namespace Comparator

/-- The written form of a comparator. -/
def display
    (c : Comparator) :
    String :=
  let parts :=
    match c.minor with
    | some minor =>
        match c.patch with
        | some patch =>
            s!".{minor}.{patch}" ++ Version.displayIdentifiers "-" c.pre
        | none => s!".{minor}" ++ if c.op = .wildcard then ".*" else ""
    | none => if c.op = .wildcard then ".*" else ""
  c.op.sign ++ toString c.major ++ parts

/-- Every given part equals the version's, and so does the pre-release. -/
def isExact
    (c : Comparator)
    (v : Version) :
    Bool :=
  v.major == c.major
    && c.minor.all (v.minor == ·)
    && c.patch.all (v.patch == ·)
    && v.pre == c.pre

/-- The version lies strictly on the side `side` of the comparator: the first given part that
differs decides, a missing part says no, and equal numbers leave it to the pre-releases. -/
def isBeyond
    (side : Ordering)
    (c : Comparator)
    (v : Version) :
    Bool :=
  if v.major ≠ c.major then compare v.major c.major == side
  else
    match c.minor with
    | none => false
    | some minor =>
        if v.minor ≠ minor then compare v.minor minor == side
        else
          match c.patch with
          | none => false
          | some patch =>
              if v.patch ≠ patch then compare v.patch patch == side
              else Version.comparePre v.pre c.pre == side

/-- The pre-release of the version is not below the comparator's. -/
def preAtLeast
    (c : Comparator)
    (v : Version) :
    Bool :=
  Version.comparePre v.pre c.pre != .lt

/-- Same major and minor number, and not below. -/
def isTilde
    (c : Comparator)
    (v : Version) :
    Bool :=
  v.major == c.major
    && c.minor.all (v.minor == ·)
    && match c.patch with
      | none => c.preAtLeast v
      | some patch => if v.patch ≠ patch then patch < v.patch else c.preAtLeast v

/-- Not below, and the first given number other than zero is the same. -/
def isCaret
    (c : Comparator)
    (v : Version) :
    Bool :=
  v.major == c.major
    && match c.minor with
      | none => true
      | some minor =>
          match c.patch with
          | none => if 0 < c.major then minor ≤ v.minor else v.minor == minor
          | some patch =>
              if 0 < c.major then
                if v.minor ≠ minor then minor < v.minor
                else if v.patch ≠ patch then patch < v.patch
                else c.preAtLeast v
              else if 0 < minor then
                v.minor == minor
                  && if v.patch ≠ patch then patch < v.patch else c.preAtLeast v
              else v.minor == minor && v.patch == patch && c.preAtLeast v

/-- The version satisfies the comparator. -/
def accepts
    (c : Comparator)
    (v : Version) :
    Bool :=
  match c.op with
  | .exact | .wildcard => c.isExact v
  | .greater => c.isBeyond .gt v
  | .greaterEq => c.isExact v || c.isBeyond .gt v
  | .less => c.isBeyond .lt v
  | .lessEq => c.isExact v || c.isBeyond .lt v
  | .tilde => c.isTilde v
  | .caret => c.isCaret v

/-- The comparator admits pre-releases of the version's numbers. -/
def admitsPre
    (c : Comparator)
    (v : Version) :
    Bool :=
  c.major == v.major
    && c.minor == some v.minor
    && c.patch == some v.patch
    && !c.pre.isEmpty

/-- Read an operator; without one it is the caret, and the flag says so. -/
def readOp : List Char → RangeOp × Bool × List Char
  | '=' :: cs => (.exact, false, cs)
  | '>' :: '=' :: cs => (.greaterEq, false, cs)
  | '>' :: cs => (.greater, false, cs)
  | '<' :: '=' :: cs => (.lessEq, false, cs)
  | '<' :: cs => (.less, false, cs)
  | '~' :: cs => (.tilde, false, cs)
  | '^' :: cs => (.caret, false, cs)
  | cs => (.caret, true, cs)

/-- A wildcard in front of a text. -/
def readWildcard? : List Char → Option (Char × List Char)
  | '*' :: cs => some ('*', cs)
  | 'x' :: cs => some ('x', cs)
  | 'X' :: cs => some ('X', cs)
  | _ => none

/-- What stands after a dot: a number, a wildcard, or nothing at all. -/
inductive Part where
  | absent
  | wildcard
  | number (n : Nat)
deriving DecidableEq, Repr

/-- The number of a part. -/
def Part.number? : Part → Option Nat
  | .number n => some n
  | _ => none

/-- Read a dot and a number or wildcard; `last` is the part begun before. -/
def readPart
    (part last : VersionPart)
    (afterWildcard : Bool) :
    List Char → Except VersionError (Part × VersionPart × List Char)
  | '.' :: cs =>
      match readWildcard? cs with
      | some (_, rest) => .ok (.wildcard, part, rest)
      | none =>
          if afterWildcard then .error .unexpectedAfterWildcard
          else
            match Version.readNumber part cs with
            | .ok (n, rest) => .ok (.number n, part, rest)
            | .error e => .error e
  | cs => .ok (.absent, last, cs)

/-- Blanks in front of a text are dropped. -/
def dropBlanks
    (cs : List Char) :
    List Char :=
  cs.dropWhile (· == ' ')

/-- Read a comparator and the blanks after it. -/
def read
    (cs : List Char) :
    Except VersionError (Comparator × VersionPart × List Char) := do
  let (op, byDefault, cs) := readOp cs
  let (major, cs) ← Version.readNumber .major (dropBlanks cs)
  let (minor, part, cs) ← readPart .minor .major false cs
  let (patch, part, cs) ← readPart .patch part (minor == .wildcard) cs
  let op := if byDefault && (minor == .wildcard || patch == .wildcard) then .wildcard else op
  let complete := patch.number?.isSome
  let (pre, part, cs) ←
    if complete then Version.readMarked '-' .pre part cs else pure ([], part, cs)
  let (_, part, cs) ←
    if complete then Version.readMarked '+' .build part cs else pure ([], part, cs)
  return ({ op, major, minor := minor.number?, patch := patch.number?, pre },
    part, dropBlanks cs)

end Comparator

namespace VersionRange

open Comparator

/-- The range of all versions. -/
def any : VersionRange :=
  ⟨[]⟩

/-- The written form of a range. -/
def display
    (r : VersionRange) :
    String :=
  if r.comparators.isEmpty then "*"
  else String.intercalate ", " (r.comparators.map Comparator.display)

/-- The version lies in the range. -/
def accepts
    (r : VersionRange)
    (v : Version) :
    Bool :=
  r.comparators.all (·.accepts v)
    && (v.pre.isEmpty || r.comparators.any (·.admitsPre v))

/-- Read comparators separated by commas, at most as many as the first argument. -/
def readList : Nat → List Char → Except VersionError (List Comparator)
  | 0, _ => .error .excessiveComparators
  | budget + 1, cs =>
      match Comparator.read cs with
      | .error e =>
          match readWildcard? cs with
          | some (wildcard, rest) =>
              match dropBlanks rest with
              | [] | ',' :: _ => .error (.wildcardNotAlone wildcard)
              | _ => .error e
          | none => .error e
      | .ok (c, part, rest) =>
          match rest with
          | [] => .ok [c]
          | ',' :: more =>
              match readList budget (dropBlanks more) with
              | .ok cs => .ok (c :: cs)
              | .error e => .error e
          | found :: _ => .error (.expectedComma part found)

/-- The greatest number of comparators in a range. -/
def maxComparators : Nat :=
  32

/-- Read a range. -/
def parse
    (text : String) :
    Except VersionError VersionRange :=
  let cs := dropBlanks text.toList
  match readWildcard? cs with
  | some (wildcard, rest) =>
      match dropBlanks rest with
      | [] => .ok any
      | ',' :: _ => .error (.wildcardNotAlone wildcard)
      | _ => .error .unexpectedAfterWildcard
  | none =>
      match readList maxComparators cs with
      | .ok comparators => .ok ⟨comparators⟩
      | .error e => .error e

end VersionRange

end Schemata
