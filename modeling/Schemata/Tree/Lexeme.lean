import Schemata.Token.Lexer
import Schemata.Tree.Error

/-!
# Lexemes

The terminals of a file, each with the documentation that stands before it.
Stray characters are dropped and broken string literals become empty ones, so
that each gives one error and no more.
-/

namespace Schemata

/-- A terminal in its place, with the documentation before it. -/
structure Lexeme where
  symbol : Terminal
  span : Span
  doc : List String
deriving DecidableEq, Repr

/-- The terminals of a file and what was found besides. -/
structure Lexemes where
  lexemes : List Lexeme
  packageDoc : List String
  errors : List ParseError
deriving DecidableEq, Repr

namespace Lexeme

/-- The characters whose bytes lie between two offsets. -/
def slice
    (start stop : Nat) :
    Nat → List Char → List Char
  | _, [] => []
  | offset, c :: cs =>
      let rest := slice start stop (offset + c.utf8Size) cs
      if start ≤ offset && offset < stop then c :: rest else rest

/-- Sort tokens into terminals, documentation and errors; `doc` is the documentation that waits for
the next terminal. -/
def gather
    (file : Nat)
    (doc : List String) :
    List Token.Placed → Lexemes
  | [] => ⟨[], [], []⟩
  | placed :: rest =>
      let span : Span := ⟨file, placed.start, placed.stop⟩
      match placed.token with
      | .doc text => gather file (doc ++ [text]) rest
      | .packageDoc text =>
          let found := gather file doc rest
          { found with packageDoc := text :: found.packageDoc }
      | .stray c =>
          let found := gather file doc rest
          { found with
            errors := ⟨.unexpectedCharacter (String.singleton c), span⟩ :: found.errors }
      | .unterminated =>
          let found := gather file [] rest
          { found with
            lexemes := ⟨.string "", span, doc⟩ :: found.lexemes
            errors := ⟨.unterminatedString, span⟩ :: found.errors }
      | .invalidEscape start stop =>
          let found := gather file [] rest
          let sequence := String.ofList (slice start stop 0 placed.text)
          { found with
            lexemes := ⟨.string "", span, doc⟩ :: found.lexemes
            errors :=
              ⟨.invalidEscape sequence, ⟨file, placed.start + start, placed.start + stop⟩⟩
                :: found.errors }
      | .terminal symbol =>
          let found := gather file [] rest
          { found with lexemes := ⟨symbol, span, doc⟩ :: found.lexemes }

/-- The lexemes of a source text. -/
def ofSource
    (file : Nat)
    (source : String) :
    Lexemes :=
  gather file [] (Token.lex source)

end Lexeme
end Schemata
