import Schemata.Text.Basic
import Schemata.Toml.Basic

/-!
# Configuration files: reading

Every reader takes the characters that are left and gives what it has read and
the characters after it.  The only scalars are texts, in double quotes with
escapes or in single quotes without; in three quotes they may have several
lines.
-/

namespace Schemata
namespace Toml

/-- A space or a tab. -/
def isBlank
    (c : Char) :
    Bool :=
  c == ' ' || c == '\t'

/-- Drop spaces and tabs. -/
def skipBlank
    (cs : List Char) :
    List Char :=
  cs.dropWhile isBlank

/-- A character that may stand in a line: no control but the tab. -/
def isPlain
    (c : Char) :
    Bool :=
  c == '\t' || (0x20 ≤ c.toNat && c.toNat != 0x7f)

/-- The end of a line. -/
def newline? : List Char → Option (List Char)
  | '\n' :: cs => some cs
  | '\r' :: '\n' :: cs => some cs
  | _ => none

/-- Drop a comment, but not the end of its line. -/
def skipComment : List Char → List Char
  | '#' :: cs => cs.dropWhile isPlain
  | cs => cs

/-- Blanks, perhaps a comment, and the end of the line or of the file. -/
def endOfLine?
    (cs : List Char) :
    Option (List Char) :=
  match skipComment (skipBlank cs) with
  | [] => some []
  | rest => newline? rest

/-- Drop blanks, comments and ends of lines; the first argument bounds their number. -/
def skipLines : Nat → List Char → List Char
  | 0, cs => cs
  | n + 1, cs =>
      let rest := skipComment (skipBlank cs)
      match newline? rest with
      | some next => skipLines n next
      | none => rest

/-- The character with a code in hexadecimal digits. -/
def codePoint?
    (digits : List Char) :
    Option Char :=
  match Text.hexDigits? digits with
  | some n => Text.scalar? n
  | none => none

/-- An escape after its backslash. -/
def escape? : List Char → Option (Char × List Char)
  | 'b' :: cs => some ('\x08', cs)
  | 't' :: cs => some ('\t', cs)
  | 'n' :: cs => some ('\n', cs)
  | 'f' :: cs => some ('\x0c', cs)
  | 'r' :: cs => some ('\r', cs)
  | '\x22' :: cs => some ('\x22', cs)
  | '\\' :: cs => some ('\\', cs)
  | 'u' :: a :: b :: c :: d :: cs => (codePoint? [a, b, c, d]).map fun e => (e, cs)
  | 'U' :: a :: b :: c :: d :: e :: f :: g :: h :: cs =>
      (codePoint? [a, b, c, d, e, f, g, h]).map fun i => (i, cs)
  | _ => none

/-- The rest of a text in double quotes; the first argument bounds its length. -/
def basicBody? : Nat → List Char → Option (List Char × List Char)
  | 0, _ => none
  | _ + 1, [] => none
  | _ + 1, '\x22' :: cs => some ([], cs)
  | n + 1, '\\' :: cs =>
      match escape? cs with
      | some (c, rest) => (basicBody? n rest).map fun (text, rest) => (c :: text, rest)
      | none => none
  | n + 1, c :: cs =>
      if isPlain c then (basicBody? n cs).map fun (text, rest) => (c :: text, rest) else none

/-- The rest of a text in single quotes. -/
def literalBody? : List Char → Option (List Char × List Char)
  | [] => none
  | '\x27' :: cs => some ([], cs)
  | c :: cs =>
      if isPlain c then (literalBody? cs).map fun (text, rest) => (c :: text, rest) else none

/-- A text in one line. -/
def text? : List Char → Option (String × List Char)
  | '\x22' :: cs =>
      (basicBody? (cs.length + 1) cs).map fun (text, rest) => (String.ofList text, rest)
  | '\x27' :: cs => (literalBody? cs).map fun (text, rest) => (String.ofList text, rest)
  | _ => none

/-- The end of a text in three quotes.  One or two more quotes belong to the text. -/
def closing?
    (quote : Char) :
    List Char → Option (List Char × List Char)
  | a :: b :: c :: cs =>
      if a = quote ∧ b = quote ∧ c = quote then
        let further := (cs.take 2).takeWhile (· == quote)
        some (further, cs.drop further.length)
      else none
  | _ => none

/-- Blanks and ends of lines after a backslash at the end of a line. -/
def skipBreak?
    (cs : List Char) :
    Option (List Char) :=
  match newline? (skipBlank cs) with
  | none => none
  | some rest => some (rest.dropWhile fun c => isBlank c || c == '\n' || c == '\r')

/-- The rest of a text in three double quotes; the first argument bounds its length. -/
def basicLines? : Nat → List Char → Option (List Char × List Char)
  | 0, _ => none
  | n + 1, cs =>
      match closing? '\x22' cs, newline? cs, cs with
      | some done, _, _ => some done
      | none, some rest, _ => (basicLines? n rest).map fun (text, rest) => ('\n' :: text, rest)
      | none, none, [] => none
      | none, none, '\\' :: cs =>
          match skipBreak? cs with
          | some rest => basicLines? n rest
          | none =>
              match escape? cs with
              | some (c, rest) => (basicLines? n rest).map fun (text, rest) => (c :: text, rest)
              | none => none
      | none, none, c :: cs =>
          if isPlain c then (basicLines? n cs).map fun (text, rest) => (c :: text, rest) else none

/-- The rest of a text in three single quotes; the first argument bounds its length. -/
def literalLines? : Nat → List Char → Option (List Char × List Char)
  | 0, _ => none
  | n + 1, cs =>
      match closing? '\x27' cs, newline? cs, cs with
      | some done, _, _ => some done
      | none, some rest, _ => (literalLines? n rest).map fun (text, rest) => ('\n' :: text, rest)
      | none, none, [] => none
      | none, none, c :: cs =>
          if isPlain c then (literalLines? n cs).map fun (text, rest) => (c :: text, rest)
          else none

/-- Drop the end of a line, if the text starts with one. -/
def skipNewline
    (cs : List Char) :
    List Char :=
  (newline? cs).getD cs

/-- A text, perhaps of several lines. -/
def anyText? : List Char → Option (String × List Char)
  | '\x22' :: '\x22' :: '\x22' :: cs =>
      (basicLines? (cs.length + 1) (skipNewline cs)).map fun (text, rest) =>
        (String.ofList text, rest)
  | '\x27' :: '\x27' :: '\x27' :: cs =>
      (literalLines? (cs.length + 1) (skipNewline cs)).map fun (text, rest) =>
        (String.ofList text, rest)
  | cs => text? cs

/-- A character of a key without quotes. -/
def isBare
    (c : Char) :
    Bool :=
  c.isAlphanum || c == '_' || c == '-'

/-- A key without dots. -/
def simpleKey?
    (cs : List Char) :
    Option (String × List Char) :=
  let bare := cs.takeWhile isBare
  if bare.isEmpty then text? cs else some (String.ofList bare, cs.dropWhile isBare)

/-- A key, and the blanks after it; the first argument bounds its length. -/
def key? : Nat → List Char → Option (Key × List Char)
  | 0, _ => none
  | n + 1, cs =>
      match simpleKey? cs with
      | none => none
      | some (first, rest) =>
          match skipBlank rest with
          | '.' :: rest => (key? n (skipBlank rest)).map fun (more, rest) => (first :: more, rest)
          | rest => some ([first], rest)

mutual

/-- A value; the first argument bounds its depth and length. -/
def value? : Nat → List Char → Option (Value × List Char)
  | 0, _ => none
  | n + 1, '[' :: cs =>
      (items? n (skipLines cs.length cs)).map fun (items, rest) => (.array items, rest)
  | n + 1, '\x7b' :: cs =>
      match skipBlank cs with
      | '\x7d' :: rest => some (.table [], rest)
      | cs =>
          match entries? n cs with
          | some (entries, rest) => (tableOf? entries).map fun table => (table, rest)
          | none => none
  | _ + 1, cs => (anyText? cs).map fun (text, rest) => (.text text, rest)

/-- The rest of an array. -/
def items? : Nat → List Char → Option (List Value × List Char)
  | 0, _ => none
  | _ + 1, ']' :: cs => some ([], cs)
  | n + 1, cs =>
      match value? n cs with
      | none => none
      | some (item, rest) =>
          match skipLines rest.length rest with
          | ']' :: rest => some ([item], rest)
          | ',' :: rest =>
              (items? n (skipLines rest.length rest)).map fun (items, rest) =>
                (item :: items, rest)
          | _ => none

/-- The rest of a table that is a value. -/
def entries? : Nat → List Char → Option (List (Key × Value) × List Char)
  | 0, _ => none
  | n + 1, cs =>
      match key? (cs.length + 1) cs with
      | some (key, '=' :: rest) =>
          match value? n (skipBlank rest) with
          | none => none
          | some (value, rest) =>
              match skipBlank rest with
              | '\x7d' :: rest => some ([(key, value)], rest)
              | ',' :: rest =>
                  (entries? n (skipBlank rest)).map fun (entries, rest) =>
                    ((key, value) :: entries, rest)
              | _ => none
      | _ => none

end

/-- A statement, without the end of its line. -/
def statement? : List Char → Option (Statement × List Char)
  | '[' :: '[' :: cs =>
      match key? (cs.length + 1) (skipBlank cs) with
      | some (tables, ']' :: ']' :: rest) => some (.itemHeader tables, rest)
      | _ => none
  | '[' :: cs =>
      match key? (cs.length + 1) (skipBlank cs) with
      | some (table, ']' :: rest) => some (.header table, rest)
      | _ => none
  | cs =>
      match key? (cs.length + 1) cs with
      | some (key, '=' :: rest) =>
          (value? (rest.length + 1) (skipBlank rest)).map fun (value, rest) =>
            (.assign key value, rest)
      | _ => none

/-- The statements of a file; the first argument bounds their number. -/
def statements? : Nat → List Char → Option (List Statement)
  | 0, _ => none
  | n + 1, cs =>
      match skipLines cs.length cs with
      | [] => some []
      | cs =>
          match statement? cs with
          | none => none
          | some (statement, rest) =>
              match endOfLine? rest with
              | none => none
              | some rest => (statements? n rest).map (statement :: ·)

/-- Drop the mark that some editors put in front of a text. -/
def skipMark : List Char → List Char
  | '\ufeff' :: cs => cs
  | cs => cs

/-- The values in a configuration file. -/
def parse?
    (text : String) :
    Option (List (String × Value)) :=
  let cs := skipMark text.toList
  (statements? (cs.length + 1) cs).bind ofStatements?

end Toml
end Schemata
