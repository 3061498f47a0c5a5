import Schemata.Primitive

/-!
# Tokens of a schema file

`Terminal`s are the tokens that the grammar is written in.  `Token` adds what
a source text can hold besides: documentation, broken string literals and
characters that belong to no token.
-/

namespace Schemata

/-- Reserved words of the schema language. -/
inductive Keyword where
  | primitive (type : Primitive)
  | asWord
  | enumWord
  | falseWord
  | interfaceWord
  | serviceWord
  | streamWord
  | trueWord
  | tupleWord
  | typeWord
  | useWord
deriving DecidableEq, Repr

namespace Keyword

/-- The spelling of a keyword. -/
def spelling : Keyword → String
  | primitive type => type.name
  | asWord => "as"
  | enumWord => "enum"
  | falseWord => "false"
  | interfaceWord => "interface"
  | serviceWord => "service"
  | streamWord => "stream"
  | trueWord => "true"
  | tupleWord => "tuple"
  | typeWord => "type"
  | useWord => "use"

/-- All keywords. -/
def all : List Keyword :=
  Primitive.all.map primitive ++
    [asWord, enumWord, falseWord, interfaceWord, serviceWord, streamWord, trueWord, tupleWord,
      typeWord, useWord]

/-- The keyword with a spelling. -/
def ofSpelling?
    (word : String) :
    Option Keyword :=
  all.find? (·.spelling == word)

end Keyword

/-- Punctuation of the schema language. -/
inductive Punctuation where
  | colon
  | colonColon
  | comma
  | equals
  | fullStop
  | hash
  | arrow
  | question
  | semicolon
  | openBrace
  | closeBrace
  | openBracket
  | closeBracket
  | openParen
  | closeParen
deriving DecidableEq, Repr

/-- The spelling of a punctuation mark. -/
def Punctuation.spelling : Punctuation → String
  | colon => ":"
  | colonColon => "::"
  | comma => ","
  | equals => "="
  | fullStop => "."
  | hash => "#"
  | arrow => "->"
  | question => "?"
  | semicolon => ";"
  | openBrace => "\x7b"
  | closeBrace => "\x7d"
  | openBracket => "["
  | closeBracket => "]"
  | openParen => "("
  | closeParen => ")"

/-- A symbol of the grammar. -/
inductive Terminal where
  | ident (name : String)
  | typeIdent (name : String)
  | string (value : String)
  | number (text : String)
  | keyword (word : Keyword)
  | punctuation (mark : Punctuation)
deriving DecidableEq, Repr

/-- How messages name a terminal. -/
def Terminal.describe : Terminal → String
  | ident name | typeIdent name => s!"identifier `{name}`"
  | string _ => "string literal"
  | number text => s!"number `{text}`"
  | keyword word => s!"keyword `{word.spelling}`"
  | punctuation mark => s!"`{mark.spelling}`"

/-- What a piece of source text is. -/
inductive Token where
  | terminal (symbol : Terminal)
  /-- A string literal without closing quote on its line. -/
  | unterminated
  /-- A string literal with a bad escape: its byte range, counted from the opening quote. -/
  | invalidEscape (start stop : Nat)
  /-- A comment that documents the next item. -/
  | doc (text : String)
  /-- A comment that documents the package. -/
  | packageDoc (text : String)
  /-- A character that begins no token. -/
  | stray (character : Char)
deriving DecidableEq, Repr

/-- How messages name a token. -/
def Token.describe : Token → String
  | terminal symbol => symbol.describe
  | unterminated | invalidEscape _ _ => "string literal"
  | doc _ | packageDoc _ => "doc comment"
  | stray _ => "invalid character"

end Schemata
