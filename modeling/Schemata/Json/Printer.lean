import Schemata.Decimal.Notation
import Schemata.Json.Basic
import Schemata.Text.Quoted

/-!
# JSON documents: writing

`compact` writes a document without blanks.  `pretty` writes one item a line,
indented by two blanks a level; what is empty stays on its line.
-/

namespace Schemata
namespace Json

mutual

/-- The document without blanks. -/
def compact : Json → String
  | null => "null"
  | bool true => "true"
  | bool false => "false"
  | integer n => toString n
  | float d => d.document
  | string s => Text.document s
  | array items => "[" ++ String.intercalate "," (compactItems items) ++ "]"
  | object entries => "\x7b" ++ String.intercalate "," (compactEntries entries) ++ "\x7d"

/-- The items of an array. -/
def compactItems : List Json → List String
  | [] => []
  | item :: rest => compact item :: compactItems rest

/-- The entries of an object. -/
def compactEntries : List (String × Json) → List String
  | [] => []
  | (key, value) :: rest => (Text.document key ++ ":" ++ compact value) :: compactEntries rest

end

/-- The start of a line at a level. -/
def indent
    (level : Nat) :
    String :=
  Text.times level "  "

/-- Lines between brackets, one level deeper than the brackets. -/
def block
    (level : Nat)
    (opening closing : String)
    (lines : List String) :
    String :=
  if lines.isEmpty then opening ++ closing
  else
    opening ++ "\n"
      ++ String.intercalate ",\n" (lines.map (indent (level + 1) ++ ·))
      ++ "\n" ++ indent level ++ closing

mutual

/-- The document with one item a line, at a level. -/
def prettyAt
    (level : Nat) :
    Json → String
  | array items => block level "[" "]" (prettyItems (level + 1) items)
  | object entries => block level "\x7b" "\x7d" (prettyEntries (level + 1) entries)
  | null => "null"
  | bool true => "true"
  | bool false => "false"
  | integer n => toString n
  | float d => d.document
  | string s => Text.document s

/-- The items of an array, each in lines of its own. -/
def prettyItems
    (level : Nat) :
    List Json → List String
  | [] => []
  | item :: rest => prettyAt level item :: prettyItems level rest

/-- The entries of an object, each in lines of its own. -/
def prettyEntries
    (level : Nat) :
    List (String × Json) → List String
  | [] => []
  | (key, value) :: rest =>
      (Text.document key ++ ": " ++ prettyAt level value) :: prettyEntries level rest

end

/-- The document with one item a line. -/
def pretty
    (j : Json) :
    String :=
  prettyAt 0 j

end Json
end Schemata
