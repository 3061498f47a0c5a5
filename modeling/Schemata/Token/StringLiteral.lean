import Schemata.Token.Basic
import Schemata.Text.Basic

/-!
# Tokens: string literals

A literal is read character by character after its opening quote.  An escape
says which character it stands for, if it is a good one, and how many
characters after the backslash belong to it; these are not looked at again.
The first bad escape is remembered with its byte range.
-/

namespace Schemata
namespace StringLiteral

/-- What a backslash and the characters after it stand for. -/
structure Escape where
  decoded : Option Char
  /-- Number of characters after the backslash that belong to the escape. -/
  length : Nat
deriving DecidableEq, Repr

/-- A hexadecimal escape; the text begins after the letter. -/
def hexEscape : List Char → Escape
  | a :: b :: _ =>
      match Text.hexDigits? [a, b] with
      | some n => ⟨Text.scalar? n, 3⟩
      | none => ⟨none, 1⟩
  | _ => ⟨none, 1⟩

/-- The scalar value between the braces of an escape. -/
def bracedScalar?
    (digits : List Char) :
    Option Char :=
  if digits.isEmpty || 6 < digits.length then none
  else (Text.hexDigits? digits).bind Text.scalar?

/-- An escape in braces; the text begins after the letter. -/
def bracedEscape : List Char → Escape
  | '\x7b' :: body =>
      match body.span (· != '\x7d') with
      | (digits, _ :: _) => ⟨bracedScalar? digits, digits.length + 3⟩
      | (_, []) => ⟨none, 1⟩
  | _ => ⟨none, 1⟩

/-- The escape that begins after a backslash. -/
def escape : List Char → Escape
  | [] => ⟨none, 0⟩
  | c :: cs =>
      if c = 'n' then ⟨some '\n', 1⟩
      else if c = 'r' then ⟨some '\r', 1⟩
      else if c = 't' then ⟨some '\t', 1⟩
      else if c = '0' then ⟨some '\x00', 1⟩
      else if c = '\x27' ∨ c = '\x22' ∨ c = '\\' then ⟨some c, 1⟩
      else if c = 'x' then hexEscape cs
      else if c = 'u' then bracedEscape cs
      else if c = '\n' then ⟨none, 0⟩
      else ⟨none, 1⟩

/-- What has been read of a literal. -/
structure Progress where
  /-- Bytes after the opening quote. -/
  bytes : Nat
  /-- Characters after the opening quote. -/
  count : Nat
  /-- Characters that the literal stands for, last first. -/
  value : List Char
  /-- Byte range of the first bad escape, counted after the opening quote. -/
  invalid : Option (Nat × Nat)
deriving DecidableEq, Repr

namespace Progress

/-- Pass one character. -/
def pass
    (p : Progress)
    (c : Char) :
    Progress :=
  { p with
    bytes := p.bytes + c.utf8Size
    count := p.count + 1 }

/-- Add a character to the value. -/
def push
    (p : Progress)
    (c : Char) :
    Progress :=
  { p with value := c :: p.value }

/-- Take in an escape; `rest` is the text after its backslash. -/
def take
    (p : Progress)
    (e : Escape)
    (rest : List Char) :
    Progress :=
  match e.decoded with
  | some c => p.push c
  | none =>
      match p.invalid with
      | some _ => p
      | none =>
          { p with
            invalid := some (p.bytes, p.bytes + 1 + Text.byteLength (rest.take e.length)) }

/-- The token of a closed literal. -/
def token
    (p : Progress) :
    Token :=
  match p.invalid with
  | some (start, stop) => .invalidEscape (start + 1) (stop + 1)
  | none => .terminal (.string (String.ofList p.value.reverse))

end Progress

/-- Read up to the closing quote, if there is one.  The first argument is the number of characters
that still belong to an escape. -/
def readBody? : Nat → Progress → List Char → Option Progress
  | _, _, [] => none
  | skip + 1, p, c :: cs => readBody? skip (p.pass c) cs
  | 0, p, c :: cs =>
      if c = '\x22' then some (p.pass c)
      else if c = '\n' then none
      else if c = '\\' then
        readBody? (escape cs).length ((p.take (escape cs) cs).pass c) cs
      else readBody? 0 ((p.push c).pass c) cs

/-- The token of a literal and the number of its characters after the opening quote.  A literal
without closing quote ends with its line. -/
def scan
    (cs : List Char) :
    Token × Nat :=
  match readBody? 0 ⟨0, 0, [], none⟩ cs with
  | some p => (p.token, p.count)
  | none => (.unterminated, (cs.takeWhile (· != '\n')).length)

end StringLiteral
end Schemata
