import Schemata.Token.StringLiteral

/-!
# Tokens: reading a source text

At each place the longest token is taken.  A step looks at the first character
and says what it begins and how many more characters belong to it; white space
and plain comments give no token.  The token stream therefore tiles the source.
-/

namespace Schemata
namespace Token

/-- White space. -/
def isBlank
    (c : Char) :
    Bool :=
  c = ' ' || c = '\t' || c = '\r' || c = '\n' || c = '\x0c'

/-- A character of an identifier, after its first. -/
def isWordChar
    (c : Char) :
    Bool :=
  c.isAlphanum || c = '_'

/-- Number of characters in front that satisfy `p`. -/
def run
    (p : Char → Bool)
    (cs : List Char) :
    Nat :=
  (cs.takeWhile p).length

/-- Number of characters of a sign and the word characters after it; a sign alone counts none. -/
def signedRun : List Char → Nat
  | c :: d :: cs =>
      if (c = '+' || c = '-') && isWordChar d then 2 + run isWordChar cs else 0
  | _ => 0

/-- Number of characters of a point and the word characters after it. -/
def fractionRun : List Char → Nat
  | '.' :: cs => 1 + run isWordChar cs
  | _ => 0

/-- Number of characters of a number after its first digit. -/
def numberRun
    (cs : List Char) :
    Nat :=
  let whole := run isWordChar cs
  let fraction := fractionRun (cs.drop whole)
  whole + fraction + signedRun (cs.drop (whole + fraction))

/-- The text of a documentation comment: one carriage return at its end and one blank at its
beginning are dropped. -/
def docText
    (cs : List Char) :
    String :=
  match Text.dropReturn cs with
  | ' ' :: rest => String.ofList rest
  | rest => String.ofList rest

/-- The token of a comment, after its two slashes; a plain comment gives none. -/
def ofComment? : List Char → Option Token
  | '/' :: text => some (.doc (docText text))
  | '!' :: text => some (.packageDoc (docText text))
  | _ => none

/-- The token of a word that begins with a small letter or an underscore. -/
def ofWord
    (word : String) :
    Token :=
  match Keyword.ofSpelling? word with
  | some keyword => .terminal (.keyword keyword)
  | none => .terminal (.ident word)

/-- The punctuation mark of one character. -/
def punctuation? : Char → Option Punctuation
  | ':' => some .colon
  | ',' => some .comma
  | '=' => some .equals
  | '.' => some .fullStop
  | '#' => some .hash
  | '?' => some .question
  | ';' => some .semicolon
  | '\x7b' => some .openBrace
  | '\x7d' => some .closeBrace
  | '[' => some .openBracket
  | ']' => some .closeBracket
  | '(' => some .openParen
  | ')' => some .closeParen
  | _ => none

/-- The text of a first character and the `n` characters after it. -/
def spanText
    (c : Char)
    (n : Nat)
    (cs : List Char) :
    String :=
  String.ofList (c :: cs.take n)

/-- The token that begins with a character, and how many of the characters after it belong to it. -/
def scan
    (c : Char)
    (cs : List Char) :
    Option Token × Nat :=
  if isBlank c then (none, run isBlank cs)
  else if c.isLower || c = '_' then
    let n := run isWordChar cs
    (some (ofWord (spanText c n cs)), n)
  else if c.isUpper then
    let n := run isWordChar cs
    (some (.terminal (.typeIdent (spanText c n cs))), n)
  else if Text.isDigit c then
    let n := numberRun cs
    (some (.terminal (.number (spanText c n cs))), n)
  else if c = '\x22' then
    let (token, n) := StringLiteral.scan cs
    (some token, n)
  else
    match c, cs with
    | '-', d :: ds =>
        if Text.isDigit d then
          let n := 1 + numberRun ds
          (some (.terminal (.number (spanText c n cs))), n)
        else if d = '>' then (some (.terminal (.punctuation .arrow)), 1)
        else (some (.stray c), 0)
    | '/', '/' :: ds =>
        let n := run (· != '\n') ds
        (ofComment? (ds.take n), n + 1)
    | ':', ':' :: _ => (some (.terminal (.punctuation .colonColon)), 1)
    | _, _ =>
        match punctuation? c with
        | some mark => (some (.terminal (.punctuation mark)), 0)
        | none => (some (.stray c), 0)

/-- A token in its place. -/
structure Placed where
  token : Token
  /-- Byte offset of the first character. -/
  start : Nat
  /-- The characters of the token. -/
  text : List Char
deriving DecidableEq, Repr

/-- Byte offset after the last character. -/
def Placed.stop
    (p : Placed) :
    Nat :=
  p.start + Text.byteLength p.text

/-- The tokens of the text from a byte offset on. -/
def lexFrom
    (offset : Nat) :
    List Char → List Placed
  | [] => []
  | c :: cs =>
      let (token, n) := scan c cs
      let text := c :: cs.take n
      let rest := lexFrom (offset + Text.byteLength text) (cs.drop n)
      match token with
      | some token => ⟨token, offset, text⟩ :: rest
      | none => rest
termination_by cs => cs.length
decreasing_by
  simp only [List.length_drop, List.length_cons]
  omega

/-- The tokens of a source text. -/
def lex
    (source : String) :
    List Placed :=
  lexFrom 0 source.toList

end Token
end Schemata
