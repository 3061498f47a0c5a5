import Schemata.Text.Basic
import Schemata.Text.Visible

/-!
# Text: quoted forms

Three ways to write a text between quotes, each one character at a time:

* `literal` is the string literal of generated code and `document` that of JSON
  documents; they differ in the controls that have a letter of their own;
* `shown` is the form in which messages show a text, and `shownChar` the form
  in which they show one character.
-/

namespace Schemata
namespace Text

/-- A code point in braces, as messages show characters that are not visible. -/
def bracedEscape
    (c : Char) :
    List Char :=
  "\\u\x7b".toList ++ Nat.toDigits 16 c.toNat ++ ['\x7d']

/-- A control character as four hexadecimal digits. -/
def controlEscape
    (c : Char) :
    List Char :=
  "\\u".toList ++ (hexPadded 4 c.toNat).toList

/-- One character of a string literal in generated code. -/
def literalChar
    (c : Char) :
    List Char :=
  if c = '\x22' then ['\\', '\x22']
  else if c = '\\' then ['\\', '\\']
  else if c = '\n' then ['\\', 'n']
  else if c = '\r' then ['\\', 'r']
  else if c = '\t' then ['\\', 't']
  else if c.toNat < 0x20 then controlEscape c
  else [c]

/-- A string literal of generated code. -/
def literal
    (text : String) :
    String :=
  String.ofList ('\x22' :: (text.toList.flatMap literalChar ++ ['\x22']))

/-- One character of a string in a JSON document. -/
def documentChar
    (c : Char) :
    List Char :=
  if c = '\x22' then ['\\', '\x22']
  else if c = '\\' then ['\\', '\\']
  else if c = '\x08' then ['\\', 'b']
  else if c = '\x0c' then ['\\', 'f']
  else if c = '\n' then ['\\', 'n']
  else if c = '\r' then ['\\', 'r']
  else if c = '\t' then ['\\', 't']
  else if c.toNat < 0x20 then controlEscape c
  else [c]

/-- A string of a JSON document. -/
def document
    (text : String) :
    String :=
  String.ofList ('\x22' :: (text.toList.flatMap documentChar ++ ['\x22']))

/-- One character between quotes `quote`, as messages show it. -/
def shownBetween
    (quote c : Char) :
    List Char :=
  if c = '\x00' then ['\\', '0']
  else if c = '\t' then ['\\', 't']
  else if c = '\r' then ['\\', 'r']
  else if c = '\n' then ['\\', 'n']
  else if c = '\\' then ['\\', '\\']
  else if c = quote then ['\\', quote]
  else if isVisible c then [c]
  else bracedEscape c

/-- A text as messages show it. -/
def shown
    (text : String) :
    String :=
  String.ofList ('\x22' :: (text.toList.flatMap (shownBetween '\x22') ++ ['\x22']))

/-- A character as messages show it. -/
def shownChar
    (c : Char) :
    String :=
  String.ofList ('\x27' :: (shownBetween '\x27' c ++ ['\x27']))

end Text
end Schemata
