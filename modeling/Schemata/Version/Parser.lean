import Schemata.Version.Basic
import Schemata.Text.Quoted

/-!
# Semantic versions: reading

A version is read from left to right and the first fault is reported, with the
part of the version that was being read.
-/

namespace Schemata

/-- A part of a version. -/
inductive VersionPart where
  | major
  | minor
  | patch
  | pre
  | build
deriving DecidableEq, Repr

/-- How messages name a part. -/
def VersionPart.describe : VersionPart → String
  | .major => "major version number"
  | .minor => "minor version number"
  | .patch => "patch version number"
  | .pre => "pre-release identifier"
  | .build => "build metadata"

/-- Why a text is no version, or no version range. -/
inductive VersionError where
  | empty
  | unexpectedEnd (part : VersionPart)
  | unexpectedChar (part : VersionPart) (found : Char)
  | unexpectedCharAfter (part : VersionPart) (found : Char)
  | expectedComma (part : VersionPart) (found : Char)
  | leadingZero (part : VersionPart)
  | overflow (part : VersionPart)
  | emptySegment (part : VersionPart)
  | wildcardNotAlone (wildcard : Char)
  | unexpectedAfterWildcard
  | excessiveComparators
deriving DecidableEq, Repr

/-- Message of a version error. -/
def VersionError.message : VersionError → String
  | .empty => "empty string, expected a semver version"
  | .unexpectedEnd part => s!"unexpected end of input while parsing {part.describe}"
  | .unexpectedChar part found =>
      s!"unexpected character {Text.shownChar found} while parsing {part.describe}"
  | .unexpectedCharAfter part found =>
      s!"unexpected character {Text.shownChar found} after {part.describe}"
  | .expectedComma part found =>
      s!"expected comma after {part.describe}, found {Text.shownChar found}"
  | .leadingZero part => s!"invalid leading zero in {part.describe}"
  | .overflow part => s!"value of {part.describe} exceeds u64::MAX"
  | .emptySegment part => s!"empty identifier segment in {part.describe}"
  | .wildcardNotAlone wildcard =>
      s!"wildcard req ({String.singleton wildcard}) must be the only comparator in the version req"
  | .unexpectedAfterWildcard => "unexpected character after wildcard in version req"
  | .excessiveComparators => "excessive number of version comparators"

namespace Version

/-- Read digits into a number that fits 64 bits.  `started` says that a digit has been read. -/
def readDigits
    (part : VersionPart) :
    Bool → Nat → List Char → Except VersionError (Nat × List Char)
  | started, value, c :: cs =>
      if Text.isDigit c then
        if started && value == 0 then .error (.leadingZero part)
        else
          let next := 10 * value + Text.digitValue c
          if next ≤ 18446744073709551615 then readDigits part true next cs
          else .error (.overflow part)
      else if started then .ok (value, c :: cs)
      else .error (.unexpectedChar part c)
  | started, value, [] =>
      if started then .ok (value, []) else .error (.unexpectedEnd part)

/-- Read a number without leading zeros. -/
def readNumber
    (part : VersionPart)
    (cs : List Char) :
    Except VersionError (Nat × List Char) :=
  readDigits part false 0 cs

/-- Read the dot after a part. -/
def readDot
    (part : VersionPart) :
    List Char → Except VersionError (List Char)
  | '.' :: cs => .ok cs
  | c :: _ => .error (.unexpectedCharAfter part c)
  | [] => .error (.unexpectedEnd part)

/-- A character of an identifier. -/
def isIdentifierChar
    (c : Char) :
    Bool :=
  c.isAlphanum || c == '-'

/-- An identifier of a part: not empty and, in a pre-release, no number with a leading zero. -/
def checkIdentifier
    (part : VersionPart)
    (segment : List Char) :
    Except VersionError String :=
  if segment.isEmpty then .error (.emptySegment part)
  else if part == .pre && segment.all Text.isDigit && 1 < segment.length
      && segment.head? == some '0' then
    .error (.leadingZero part)
  else .ok (String.ofList segment)

/-- Read identifiers separated by dots. -/
def readIdentifiers
    (part : VersionPart)
    (cs : List Char) :
    Except VersionError (List String × List Char) :=
  let (body, rest) := cs.span fun c => isIdentifierChar c || c == '.'
  match (Text.splitWhen (· == '.') body).mapM (checkIdentifier part) with
  | .ok identifiers => .ok (identifiers, rest)
  | .error e => .error e

/-- Read identifiers after a mark; without the mark there are none, and `part` stays the part
begun last. -/
def readMarked
    (mark : Char)
    (marked part : VersionPart) :
    List Char → Except VersionError (List String × VersionPart × List Char)
  | [] => .ok ([], part, [])
  | c :: cs =>
      if c == mark then
        match readIdentifiers marked cs with
        | .ok (identifiers, rest) => .ok (identifiers, marked, rest)
        | .error e => .error e
      else .ok ([], part, c :: cs)

/-- Nothing may follow the last part. -/
def readEnd
    (part : VersionPart) :
    List Char → Except VersionError Unit
  | [] => .ok ()
  | c :: _ => .error (.unexpectedCharAfter part c)

/-- Read a version. -/
def parse
    (text : String) :
    Except VersionError Version := do
  if text.isEmpty then throw .empty
  let (major, cs) ← readNumber .major text.toList
  let cs ← readDot .major cs
  let (minor, cs) ← readNumber .minor cs
  let cs ← readDot .minor cs
  let (patch, cs) ← readNumber .patch cs
  let (pre, part, cs) ← readMarked '-' .pre .patch cs
  let (build, part, cs) ← readMarked '+' .build part cs
  readEnd part cs
  return { major, minor, patch, pre, build }

end Version

end Schemata
