import Schemata.Text.Letter
import Schemata.Text.Basic

/-!
# Naming: words of an identifier

Two ways to cut a name into words.  `words` cuts ASCII names at underscores and
before every capital, so that each capital of an acronym is a word of its own.
`casedWords` cuts names of any script where a small letter meets a capital and
before the last capital of an acronym.
-/

namespace Schemata
namespace Naming

section SingleCapitals

/-- Close the word being read, if it has characters. -/
def closeWord
    (current : List Char)
    (rest : List (List Char)) :
    List (List Char) :=
  if current.isEmpty then rest else current :: rest

/-- Words of the remaining characters; `current` is the word being read. -/
def wordsFrom
    (screaming : Bool) :
    List Char → List Char → List (List Char)
  | current, [] => closeWord current []
  | current, c :: cs =>
      if c.isAlphanum then
        if c.isUpper && !screaming then
          closeWord current (wordsFrom screaming [c.toLower] cs)
        else wordsFrom screaming (current ++ [c.toLower]) cs
      else closeWord current (wordsFrom screaming [] cs)

/-- A name with underscores and without small letters, in which capitals do not begin words. -/
def isScreaming
    (cs : List Char) :
    Bool :=
  cs.contains '_' && !cs.any (·.isLower)

/-- The words of a name in small letters. -/
def words
    (name : String) :
    List String :=
  (wordsFrom (isScreaming name.toList) [] name.toList).map String.ofList

end SingleCapitals

section Acronyms

/-- The case of the last cased character of the word being read. -/
inductive CaseMode where
  | none
  | lower
  | upper
deriving DecidableEq, Repr

/-- The mode after one more character. -/
def CaseMode.next
    (mode : CaseMode)
    (c : Char) :
    CaseMode :=
  if Text.isLowercase c then .lower
  else if Text.isUppercase c then .upper
  else mode

/-- Words of a piece without separators; `current` is the word being read. -/
def pieceWords : CaseMode → List Char → List Char → List (List Char)
  | _, _, [] => []
  | _, current, [c] => [current ++ [c]]
  | mode, current, c :: d :: cs =>
      if mode.next c = .lower ∧ Text.isUppercase d then
        (current ++ [c]) :: pieceWords .none [] (d :: cs)
      else if mode = .upper ∧ Text.isUppercase c ∧ Text.isLowercase d then
        current :: pieceWords .none [c] (d :: cs)
      else pieceWords (mode.next c) (current ++ [c]) (d :: cs)

/-- The words of a name, as they are written. -/
def casedWords
    (cs : List Char) :
    List (List Char) :=
  (Text.splitWhen (!Text.isAlphanumeric ·) cs).flatMap (pieceWords .none [])

end Acronyms

end Naming
end Schemata
