import Schemata.Number
import Schemata.Source

/-!
# Errors of reading a file
-/

namespace Schemata

/-- Why a file could not be read. -/
inductive ParseProblem where
  | unterminatedString
  | invalidEscape (sequence : String)
  | unexpectedCharacter (character : String)
  | invalidNumber (error : NumberError)
  | unknownKeyword (word expected : String)
  | unexpectedToken (found expected : String)
  | unexpectedEof (expected : String)
  | nestedTooDeep (limit : Nat)
deriving DecidableEq, Repr

/-- A problem in its place. -/
structure ParseError where
  problem : ParseProblem
  span : Span
deriving DecidableEq, Repr

/-- Message of a problem. -/
def ParseProblem.message : ParseProblem → String
  | unterminatedString => "unterminated string literal"
  | invalidEscape text => s!"invalid escape sequence `{text}`"
  | unexpectedCharacter character => s!"unexpected character `{character}`"
  | invalidNumber error => error.message
  | unknownKeyword word expected => s!"unknown keyword `{word}`, expected {expected}"
  | unexpectedToken found expected => s!"unexpected {found}, expected {expected}"
  | unexpectedEof expected => s!"unexpected end of file, expected {expected}"
  | nestedTooDeep limit => s!"nesting is deeper than {limit} levels"

/-- The text under which a diagnostic marks the place of a problem. -/
def ParseProblem.label : ParseProblem → String
  | unterminatedString => "missing closing quote"
  | invalidEscape _ => "invalid escape"
  | unexpectedCharacter _ => "unexpected character"
  | invalidNumber _ => "invalid number"
  | unknownKeyword _ _ => "unknown keyword"
  | unexpectedToken _ _ => "unexpected token"
  | unexpectedEof _ => "unexpected end of file"
  | nestedTooDeep _ => "nested too deeply"

/-- Message of an error. -/
def ParseError.message
    (e : ParseError) :
    String :=
  e.problem.message

end Schemata
