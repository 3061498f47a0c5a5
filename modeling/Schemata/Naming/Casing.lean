import Schemata.Naming.Words
import Schemata.Text.CaseMap

/-!
# Naming: casings

The four conventions in which generated code spells a name.
-/

namespace Schemata
namespace Naming

/-- A convention for the spelling of names. -/
inductive Casing where
  | lowerSnake
  | lowerCamel
  | upperCamel
  | upperSnake
deriving DecidableEq, Repr

/-- A word in small letters; a capital sigma at its end has a form of its own. -/
def lowerWord : List Char → List Char
  | [] => []
  | [c] => if c = '\u03a3' then ['\u03c2'] else Text.toLowercase c
  | c :: d :: cs => Text.toLowercase c ++ lowerWord (d :: cs)

/-- A word in capitals. -/
def upperWord
    (word : List Char) :
    List Char :=
  word.flatMap Text.toUppercase

/-- A word with a capital first and small letters after it. -/
def capitalWord : List Char → List Char
  | [] => []
  | c :: cs => Text.toUppercase c ++ lowerWord cs

/-- Words joined by underscores. -/
def joinSnake
    (words : List (List Char)) :
    List Char :=
  (words.intersperse ['_']).flatten

namespace Casing

/-- The casing with a name. -/
def parse? : String → Option Casing
  | "lower_snake" => some lowerSnake
  | "lower_camel" => some lowerCamel
  | "upper_camel" => some upperCamel
  | "upper_snake" => some upperSnake
  | _ => none

/-- The words from which a camel-case name is built: the boundaries of `words` are kept, since the
result has no separators. -/
def camelWords
    (name : String) :
    List (List Char) :=
  casedWords (joinSnake ((words name).map String.toList))

/-- Spell a name in a casing. -/
def apply
    (casing : Casing)
    (name : String) :
    String :=
  String.ofList <|
    match casing with
    | lowerSnake => joinSnake ((casedWords name.toList).map lowerWord)
    | upperSnake => joinSnake ((casedWords name.toList).map upperWord)
    | upperCamel => (camelWords name).flatMap capitalWord
    | lowerCamel =>
        match camelWords name with
        | [] => []
        | first :: rest => lowerWord first ++ rest.flatMap capitalWord

end Casing

end Naming
end Schemata
