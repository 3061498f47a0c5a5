/-!
# Text: cutting lists of characters

Texts are `String`s in every public type and lists of characters while they
are being read.  This module holds the cuts that several readers share, and
the digits of numbers in base ten and base sixteen.
-/

namespace Schemata
namespace Text

/-- Put `c` in front of the first piece. -/
def consFirst
    (c : Char) :
    List (List Char) → List (List Char)
  | [] => [[c]]
  | piece :: pieces => (c :: piece) :: pieces

/-- The pieces between the characters that satisfy `sep`; always at least one piece. -/
def splitWhen
    (sep : Char → Bool) :
    List Char → List (List Char)
  | [] => [[]]
  | c :: cs =>
      if sep c then [] :: splitWhen sep cs
      else consFirst c (splitWhen sep cs)

/-- The pieces of a text between occurrences of `sep`; always at least one piece. -/
def split
    (sep : Char)
    (text : String) :
    List String :=
  (splitWhen (· == sep) text.toList).map String.ofList

/-- The rest of a text after a fixed beginning. -/
def stripPrefix? : List Char → List Char → Option (List Char)
  | [], cs => some cs
  | _ :: _, [] => none
  | w :: ws, c :: cs => if w == c then stripPrefix? ws cs else none

/-- Cut at the first occurrence of `mark`, which is dropped. -/
def cutAt?
    (mark : List Char) :
    List Char → Option (List Char × List Char)
  | [] =>
      match stripPrefix? mark [] with
      | some rest => some ([], rest)
      | none => none
  | c :: cs =>
      match stripPrefix? mark (c :: cs) with
      | some rest => some ([], rest)
      | none =>
          (cutAt? mark cs).map fun (before, after) => (c :: before, after)

/-- The pieces of a text between occurrences of `mark`, with a bound on their number. -/
def splitOnAux
    (mark : List Char) :
    Nat → List Char → List (List Char)
  | 0, cs => [cs]
  | n + 1, cs =>
      match cutAt? mark cs with
      | none => [cs]
      | some (before, after) => before :: splitOnAux mark n after

/-- The pieces of a text between occurrences of a non-empty `mark`. -/
def splitOn
    (mark text : String) :
    List String :=
  (splitOnAux mark.toList text.length text.toList).map String.ofList

/-- Drop one carriage return at the end of a line. -/
def dropReturn
    (line : List Char) :
    List Char :=
  match line.getLast? with
  | some '\r' => line.dropLast
  | _ => line

/-- Lines that end in line feeds: each gives up its line feed and one carriage return before it,
and nothing after the last line feed is no line. -/
def lineList : List (List Char) → List (List Char)
  | [] => []
  | [last] => if last.isEmpty then [] else [last]
  | line :: next :: more => dropReturn line :: lineList (next :: more)

/-- The lines of a text. -/
def lines
    (text : String) :
    List String :=
  (lineList (splitWhen (· == '\n') text.toList)).map String.ofList

/-- Number of bytes of a list of characters in UTF-8. -/
def byteLength : List Char → Nat
  | [] => 0
  | c :: cs => c.utf8Size + byteLength cs

/-- A text repeated. -/
def times
    (n : Nat)
    (text : String) :
    String :=
  String.join (List.replicate n text)

/-- An ASCII digit. -/
def isDigit
    (c : Char) :
    Bool :=
  '0' ≤ c && c ≤ '9'

/-- Value of an ASCII digit. -/
def digitValue
    (c : Char) :
    Nat :=
  c.toNat - '0'.toNat

/-- Value of a run of ASCII digits read in base ten. -/
def digitsValue
    (cs : List Char) :
    Nat :=
  cs.foldl (fun n c => 10 * n + digitValue c) 0

/-- A non-empty run of ASCII digits. -/
def isDigits
    (cs : List Char) :
    Bool :=
  !cs.isEmpty && cs.all isDigit

/-- Value of a hexadecimal digit. -/
def hexValue?
    (c : Char) :
    Option Nat :=
  if isDigit c then some (c.toNat - '0'.toNat)
  else if 'a' ≤ c && c ≤ 'f' then some (c.toNat - 'a'.toNat + 10)
  else if 'A' ≤ c && c ≤ 'F' then some (c.toNat - 'A'.toNat + 10)
  else none

/-- The value of a run of hexadecimal digits, if all of them are. -/
def hexDigits?
    (cs : List Char) :
    Option Nat :=
  cs.foldl
    (fun value c =>
      match value, hexValue? c with
      | some n, some d => some (16 * n + d)
      | _, _ => none)
    (some 0)

/-- The character with a code point, if the code point is a Unicode scalar value. -/
def scalar?
    (n : Nat) :
    Option Char :=
  if h : n.isValidChar then some (Char.ofNatAux n h) else none

/-- A number in lowercase hexadecimal. -/
def hex
    (n : Nat) :
    String :=
  String.ofList (Nat.toDigits 16 n)

/-- A number in lowercase hexadecimal, with zeros in front up to a width. -/
def hexPadded
    (width n : Nat) :
    String :=
  let digits := Nat.toDigits 16 n
  String.ofList (List.replicate (width - digits.length) '0' ++ digits)

end Text
end Schemata
