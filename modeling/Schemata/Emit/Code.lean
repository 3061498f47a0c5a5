import Schemata.Text.Basic

/-!
# Lines of generated code

Code is a list of lines, blank lines and indented parts.  Writing it gives
every line the indentation of its depth.  A blank line is left out at the
beginning, after another blank line, and after a line that opens a block.
-/

namespace Schemata

/-- A part of generated code. -/
inductive CodeItem where
  | line (text : String)
  | blank
  | indented (items : List CodeItem)
deriving Repr

/-- Generated code. -/
abbrev Code := List CodeItem

namespace Code

/-- One line. -/
def line
    (text : String) :
    Code :=
  [.line text]

/-- A blank line, where one is wanted. -/
def blank : Code :=
  [.blank]

/-- Several lines. -/
def lines
    (texts : List String) :
    Code :=
  texts.map .line

/-- Deeper code. -/
def indented
    (body : Code) :
    Code :=
  [.indented body]

/-- Code between a header that opens a brace and a line that closes it. -/
def blockEnding
    (footer header : String)
    (body : Code) :
    Code :=
  line (header ++ " \x7b") ++ indented body ++ line footer

/-- Code between a header and its closing brace. -/
def block
    (header : String)
    (body : Code) :
    Code :=
  blockEnding "\x7d" header body

/-- Two blocks of which the second starts where the first ends. -/
def twoBlocks
    (first : String)
    (firstBody : Code)
    (second : String)
    (secondBody : Code) :
    Code :=
  line (first ++ " \x7b") ++ indented firstBody
    ++ line ("\x7d " ++ second ++ " \x7b") ++ indented secondBody
    ++ line "\x7d"

/-- Documentation lines, each behind the mark of a comment. -/
def doc
    (mark : String)
    (texts : List String) :
    Code :=
  texts.map fun text => .line (if text.isEmpty then mark else s!"{mark} {text}")

/-- Written code, line by line. -/
def embed
    (text : String) :
    Code :=
  lines (Text.lines text)

/-- The text of a line at a depth; an empty line is not indented. -/
def lineAt
    (indent : String)
    (depth : Nat)
    (text : String) :
    String :=
  if text.isEmpty then text else Text.times depth indent ++ text

/-- The lines so far, last one first, leave no room for a blank line. -/
def refusesBlank : List String → Bool
  | [] => true
  | last :: before => last.toList.getLast? == some '\x7b' || (last.isEmpty && !before.isEmpty)

mutual

/-- Write one part after the lines so far, which are held last one first. -/
def writeItem
    (indent : String)
    (depth : Nat) :
    CodeItem → List String → List String
  | .line text, before => lineAt indent depth text :: before
  | .blank, before => if refusesBlank before then before else "" :: before
  | .indented items, before => write indent (depth + 1) items before

/-- Write code after the lines so far, which are held last one first. -/
def write
    (indent : String)
    (depth : Nat) :
    List CodeItem → List String → List String
  | [], before => before
  | item :: rest, before => write indent depth rest (writeItem indent depth item before)

end

/-- The text of code, where `indent` is the indentation of one level. -/
def render
    (indent : String)
    (code : Code) :
    String :=
  String.join ((write indent 0 code []).reverse.map (· ++ "\n"))

end Code

end Schemata
