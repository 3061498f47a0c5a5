import Schemata.Tree.Basic
import Schemata.Tree.Lexeme

/-!
# Reading a file from its lexemes

The grammar is read from left to right with one terminal of lookahead.  A
declaration that cannot be read gives one error; reading goes on at the next
place where a declaration or an import begins outside all braces, so that one
pass finds many errors.

Declarations and types may nest up to `maxNesting` levels; recursion is on the
number of levels that are left.  Repetitions are bounded by the number of
lexemes that are left, since every round takes one or fails.
-/

namespace Schemata
namespace Tree

/-- Where the reading of a file stands. -/
structure Cursor where
  /-- The lexemes that are left. -/
  rest : List Lexeme
  /-- Number of open braces. -/
  depth : Nat
  /-- The span of the lexeme taken last. -/
  last : Span
  /-- The place after the whole text. -/
  eof : Span
deriving Repr

/-- A reading step: moves the cursor, and gives a value or an error. -/
abbrev Reader := EStateM ParseError Cursor

/-- The greatest number of levels of nested types and declarations. -/
def maxNesting : Nat :=
  64

namespace Cursor

/-- The terminal in front. -/
def peek?
    (c : Cursor) :
    Option Terminal :=
  c.rest.head?.map (·.symbol)

/-- The place of the terminal in front. -/
def span
    (c : Cursor) :
    Span :=
  match c.rest with
  | lexeme :: _ => lexeme.span
  | [] => c.eof

/-- The braces that are open after a terminal. -/
def depthAfter
    (depth : Nat) :
    Terminal → Nat
  | .punctuation .openBrace => depth + 1
  | .punctuation .closeBrace => depth - 1
  | _ => depth

/-- Take the lexeme in front, if there is one. -/
def bump
    (c : Cursor) :
    Cursor :=
  match c.rest with
  | lexeme :: rest =>
      { c with
        rest := rest
        depth := depthAfter c.depth lexeme.symbol
        last := lexeme.span }
  | [] => c

/-- The terminal in front is the given one. -/
def isAt
    (c : Cursor)
    (symbol : Terminal) :
    Bool :=
  c.peek? == some symbol

/-- The documentation in front is used up. -/
def clearDoc
    (c : Cursor) :
    Cursor :=
  match c.rest with
  | lexeme :: rest => { c with rest := { lexeme with doc := [] } :: rest }
  | [] => c

/-- The documentation in front. -/
def doc
    (c : Cursor) :
    List String :=
  match c.rest with
  | lexeme :: _ => lexeme.doc
  | [] => []

end Cursor

section Steps

/-- The error of finding something else than what was expected. -/
def unexpected
    (expected : String)
    (c : Cursor) :
    ParseError :=
  match c.peek? with
  | some symbol => ⟨.unexpectedToken symbol.describe expected, c.span⟩
  | none => ⟨.unexpectedEof expected, c.eof⟩

/-- Fail at the terminal in front. -/
def failExpecting
    {α : Type}
    (expected : String) :
    Reader α := do
  throw (unexpected expected (← get))

/-- Take the lexeme in front and give its span. -/
def advance : Reader Span := do
  modify Cursor.bump
  return (← get).last

/-- Take a terminal if it is in front. -/
def eat
    (symbol : Terminal) :
    Reader Bool := do
  if (← get).isAt symbol then
    modify Cursor.bump
    return true
  else return false

/-- Take a terminal that must be in front. -/
def expect
    (symbol : Terminal)
    (expected : String) :
    Reader Span := do
  if (← get).isAt symbol then advance
  else failExpecting expected

/-- Take a punctuation mark that must be in front; messages name it by its spelling. -/
def expectMark
    (mark : Punctuation) :
    Reader Span :=
  expect (.punctuation mark) s!"`{mark.spelling}`"

/-- Take a punctuation mark if it is in front. -/
def eatMark
    (mark : Punctuation) :
    Reader Bool :=
  eat (.punctuation mark)

/-- Take the documentation in front. -/
def takeDoc : Reader (List String) := do
  let doc := (← get).doc
  modify Cursor.clearDoc
  return doc

/-- Run a step until the condition fails, at most as often as the first argument says. -/
def repeatWhile
    {α : Type}
    (more : Cursor → Bool)
    (step : Reader α) :
    Nat → Reader (List α)
  | 0 => return []
  | rounds + 1 => do
      if more (← get) then
        let a ← step
        return a :: (← repeatWhile more step rounds)
      else return []

/-- Run a step while the condition holds. -/
def whileMore
    {α : Type}
    (more : Cursor → Bool)
    (step : Reader α) :
    Reader (List α) := do
  repeatWhile more step ((← get).rest.length + 1)

/-- Items up to a closing mark, which is not taken. -/
def upTo
    {α : Type}
    (close : Punctuation)
    (item : Reader α) :
    Reader (List α) :=
  whileMore (fun c => !c.isAt (.punctuation close)) item

/-- Further items, each after a separator. -/
def further
    {α : Type}
    (separator : Punctuation)
    (item : Reader α) :
    Reader (List α) :=
  whileMore (·.isAt (.punctuation separator)) do
    modify Cursor.bump
    item

/-- Items with commas between them and perhaps after the last, up to a closing mark that is not
taken.  The first argument bounds the number of items. -/
def commaItems
    {α : Type}
    (close : Punctuation)
    (item : Reader α) :
    Nat → Reader (List α)
  | 0 => return []
  | rounds + 1 => do
      if (← get).isAt (.punctuation close) then return []
      let a ← item
      if ← eatMark .comma then return a :: (← commaItems close item rounds)
      else return [a]

/-- Items with commas between them and perhaps after the last, up to a closing mark that is not
taken. -/
def commaList
    {α : Type}
    (close : Punctuation)
    (item : Reader α) :
    Reader (List α) := do
  commaItems close item ((← get).rest.length + 1)

/-- Run a step after a terminal, if the terminal is in front. -/
def after
    {α : Type}
    (symbol : Terminal)
    (step : Reader α) :
    Reader (Option α) := do
  if ← eat symbol then return some (← step)
  else return none

/-- Fail for too many levels of nesting. -/
def failNesting
    {α : Type} :
    Reader α := do
  throw ⟨.nestedTooDeep maxNesting, (← get).span⟩

end Steps

section Words

/-- An identifier without the underscore that lets it be spelled like a keyword. -/
def unescape
    (name : String) :
    String :=
  match name.toList with
  | '_' :: rest =>
      let word := String.ofList rest
      if (Keyword.ofSpelling? word).isSome then word else name
  | _ => name

/-- Read an identifier. -/
def readIdent
    (expected : String) :
    Reader (Located String) := do
  match (← get).peek? with
  | some (.ident name) => return ⟨unescape name, ← advance⟩
  | _ => failExpecting expected

/-- Read the name of a type. -/
def readTypeIdent
    (expected : String) :
    Reader (Located String) := do
  match (← get).peek? with
  | some (.typeIdent name) => return ⟨name, ← advance⟩
  | _ => failExpecting expected

/-- Read a string literal. -/
def readString
    (expected : String) :
    Reader (Located String) := do
  match (← get).peek? with
  | some (.string value) => return ⟨value, ← advance⟩
  | _ => failExpecting expected

/-- Read a literal value. -/
def readLiteral : Reader (Located Literal) := do
  let c ← get
  match c.peek? with
  | some (.string value) => return ⟨.string value, ← advance⟩
  | some (.number text) =>
      match Number.parse text with
      | .ok number => return ⟨.number number, ← advance⟩
      | .error e => throw ⟨.invalidNumber e, c.span⟩
  | some (.keyword .trueWord) => return ⟨.boolean true, ← advance⟩
  | some (.keyword .falseWord) => return ⟨.boolean false, ← advance⟩
  | some (.ident name) => return ⟨.identifier (unescape name), ← advance⟩
  | _ => failExpecting "a string, number, boolean or identifier"

end Words

section Types

/-- Read the local name of an imported package in front of a name. -/
def readQualifier : Reader (Option String) := do
  match (← get).peek? with
  | some (.ident name) =>
      modify Cursor.bump
      let _ ← expectMark .colonColon
      return some name
  | _ => return none

/-- Read the name of a declaration. -/
def readTypeName : Reader TypeName := do
  let start := (← get).span
  let qualifier ← readQualifier
  let first ← readTypeIdent "type name"
  let more ← further .colonColon (readTypeIdent "type name")
  return { qualifier
           path := first.value :: more.map (·.value)
           span := start.cover (← get).last }

/-- Read a type that may nest the given number of levels. -/
def readTypeExpr : Nat → Reader TypeExpr
  | 0 => failNesting
  | levels + 1 => do
      match (← get).peek? with
      | some (.keyword (.primitive type)) =>
          modify Cursor.bump
          return .primitive type
      | some (.punctuation .openBracket) =>
          modify Cursor.bump
          let item ← readTypeExpr levels
          let _ ← expectMark .closeBracket
          return .array item
      | some (.punctuation .openBrace) =>
          modify Cursor.bump
          let key ← readTypeExpr levels
          let _ ← expectMark .colon
          let value ← readTypeExpr levels
          let _ ← expectMark .closeBrace
          return .map key value
      | some (.punctuation .openParen) =>
          modify Cursor.bump
          let first ← readTypeExpr levels
          let more ← further .comma (readTypeExpr levels)
          let _ ← expect (.punctuation .closeParen) "`,` or `)`"
          return .tuple (first :: more)
      | some (.ident _) | some (.typeIdent _) => return .name (← readTypeName)
      | _ => failExpecting "a type"

/-- Read a type in its place. -/
def readType
    (levels : Nat) :
    Reader (Located TypeExpr) := do
  let start := (← get).span
  let type ← readTypeExpr levels
  return ⟨type, start.cover (← get).last⟩

/-- Read a type that may be a stream. -/
def readChannel
    (levels : Nat) :
    Reader Channel := do
  let streaming ← eat (.keyword .streamWord)
  return { streaming, type := ← readType levels }

end Types

section Parts

/-- Read the versions of an import, if it says which. -/
def readRange : Reader (Option (Located String)) := do
  match (← get).peek? with
  | some (.string _) => return some (← readString "version range")
  | _ => return none

/-- Read an import; its keyword is in front. -/
def readImport : Reader Import := do
  let start ← advance
  let first ← readIdent "package name"
  let more ← further .fullStop (readIdent "package name")
  let span := more.foldl (fun s part => s.cover part.span) first.span
  let range ← readRange
  let alias? ← after (.keyword .asWord) (readIdent "package alias")
  let stop ← expectMark .semicolon
  return { package := ⟨⟨first.value :: more.map (·.value)⟩, span⟩
           range
           alias?
           span := start.cover stop }

/-- Read an argument of an attribute. -/
def readArgument : Reader Argument := do
  let name ← readIdent "attribute argument"
  let value ← after (.punctuation .equals) readLiteral
  return { name, value }

/-- Read the arguments of an attribute, if there are any. -/
def readArguments : Reader (List Argument) := do
  if ← eatMark .openParen then
    let args ← commaList .closeParen readArgument
    let _ ← expectMark .closeParen
    return args
  else return []

/-- Read an attribute; its hash is in front. -/
def readAttribute : Reader Attribute := do
  let start ← advance
  let _ ← expectMark .openBracket
  let name ← readIdent "attribute name"
  let args ← readArguments
  let stop ← expectMark .closeBracket
  return { name, args, span := start.cover stop }

/-- Read the attributes of a declaration. -/
def readAttributes : Reader (List Attribute) :=
  whileMore (·.isAt (.punctuation .hash)) readAttribute

/-- Read a field without what ends it. -/
def readFieldParts
    (levels : Nat) :
    Reader Field := do
  let doc ← takeDoc
  let name ← readIdent "field name"
  let optional ← eatMark .question
  let _ ← expectMark .colon
  let type ← readType levels
  let alias? ← after (.keyword .asWord) (readString "field alias")
  return { doc, name, optional, type, alias?, span := name.span.cover (← get).last }

/-- Read a field and the semicolon that ends it. -/
def readField
    (levels : Nat) :
    Reader Field := do
  let field ← readFieldParts levels
  let stop ← expectMark .semicolon
  return { field with span := field.span.cover stop }

/-- Read a member of an enum. -/
def readEnumMember : Reader EnumMember := do
  let doc ← takeDoc
  let name ← readTypeIdent "enum member"
  let value ← after (.keyword .asWord) readLiteral
  let stop ← expectMark .semicolon
  return { doc, name, value, span := name.span.cover stop }

/-- Read an argument of an endpoint. -/
def readEndpointArgument
    (levels : Nat) :
    Reader EndpointArgument := do
  let name ← readIdent "argument name"
  let _ ← expectMark .colon
  return { name, channel := ← readChannel levels }

/-- Read an endpoint. -/
def readEndpoint
    (levels : Nat) :
    Reader Endpoint := do
  let doc ← takeDoc
  let name ← readIdent "endpoint name"
  let _ ← expectMark .openParen
  let arguments ← commaList .closeParen (readEndpointArgument levels)
  let _ ← expect (.punctuation .closeParen) "`,` or `)`"
  let response ← after (.punctuation .arrow) (readChannel levels)
  let alias? ← after (.keyword .asWord) (readString "endpoint alias")
  let stop ← expectMark .semicolon
  return { doc, name, arguments, response, alias?, span := name.span.cover stop }

end Parts

section Declarations

/-- The kinds of declarations. -/
inductive DeclWord where
  | type
  | tuple
  | interface
  | enum
  | service
deriving DecidableEq, Repr

/-- The kind of declaration that a keyword begins. -/
def DeclWord.ofKeyword? : Keyword → Option DeclWord
  | .typeWord => some .type
  | .tupleWord => some .tuple
  | .interfaceWord => some .interface
  | .enumWord => some .enum
  | .serviceWord => some .service
  | _ => none

/-- The terminal begins a declaration. -/
def beginsDecl : Terminal → Bool
  | .punctuation .hash => true
  | .keyword word => (DeclWord.ofKeyword? word).isSome
  | _ => false

/-- What is expected where a declaration begins. -/
def declExpected : String :=
  "one of `type`, `tuple`, `interface`, `enum`, `service`"

/-- Read the keyword of a declaration. -/
def readDeclWord : Reader DeclWord := do
  let c ← get
  match c.peek? with
  | some (.keyword word) =>
      match DeclWord.ofKeyword? word with
      | some kind =>
          modify Cursor.bump
          return kind
      | none => failExpecting declExpected
  | some (.ident word) => throw ⟨.unknownKeyword word declExpected, c.span⟩
  | _ => failExpecting declExpected

/-- Something between braces. -/
def braced
    {α : Type}
    (item : Reader α) :
    Reader (List α) := do
  let _ ← expectMark .openBrace
  let items ← upTo .closeBrace item
  let _ ← expectMark .closeBrace
  return items

section Bodies

variable (decl : Reader Decl)
variable (levels : Nat)

/-- Read a field or a nested declaration. -/
def readMember : Reader (Member Decl) := do
  match (← get).peek? with
  | some (.ident _) => return .field (← readField levels)
  | some symbol =>
      if beginsDecl symbol then return .decl (← decl)
      else failExpecting "a field or declaration"
  | none => failExpecting "a field or declaration"

/-- Read members in braces. -/
def readMembers : Reader (List (Member Decl)) :=
  braced (readMember decl levels)

/-- Read the body of a tuple: members in braces, or fields in parentheses. -/
def readTupleMembers : Reader (List (Member Decl)) := do
  if ← eatMark .openParen then
    let fields ← commaList .closeParen (readFieldParts levels)
    let _ ← expect (.punctuation .closeParen) "`,` or `)`"
    let _ ← eatMark .semicolon
    return fields.map .field
  else readMembers decl levels

/-- Read the members of a case of an interface, or the semicolon of a case that has none. -/
def readSubTypeMembers : Reader (List (Member Decl)) := do
  if (← get).isAt (.punctuation .openBrace) then readMembers decl levels
  else
    let _ ← expect (.punctuation .semicolon) "`\x7b` or `;`"
    return []

/-- Read a case of an interface. -/
def readSubType : Reader (SubType Decl) := do
  let doc ← takeDoc
  let name ← readTypeIdent "sub-type name"
  let alias? ← after (.keyword .asWord) readLiteral
  let members ← readSubTypeMembers decl levels
  return { doc, name, alias?, members, span := name.span.cover (← get).last }

/-- A member or a case of an interface. -/
inductive InterfaceItem where
  | member (member : Member Decl)
  | subType (subType : SubType Decl)

/-- Read a member or a case of an interface. -/
def readInterfaceItem : Reader InterfaceItem := do
  match (← get).peek? with
  | some (.typeIdent _) => return .subType (← readSubType decl levels)
  | _ => return .member (← readMember decl levels)

/-- The members among the items of an interface. -/
def InterfaceItem.member? : InterfaceItem → Option (Member Decl)
  | .member m => some m
  | .subType _ => none

/-- The cases among the items of an interface. -/
def InterfaceItem.subType? : InterfaceItem → Option (SubType Decl)
  | .member _ => none
  | .subType s => some s

/-- An endpoint or a nested declaration of a service. -/
inductive ServiceItem where
  | endpoint (endpoint : Endpoint)
  | decl (decl : Decl)

/-- Read an endpoint or a nested declaration of a service. -/
def readServiceItem : Reader ServiceItem := do
  match (← get).peek? with
  | some (.ident _) => return .endpoint (← readEndpoint levels)
  | some symbol =>
      if beginsDecl symbol then return .decl (← decl)
      else failExpecting "an endpoint or declaration"
  | none => failExpecting "an endpoint or declaration"

/-- The endpoints among the items of a service. -/
def ServiceItem.endpoint? : ServiceItem → Option Endpoint
  | .endpoint e => some e
  | .decl _ => none

/-- The declarations among the items of a service. -/
def ServiceItem.decl? : ServiceItem → Option Decl
  | .endpoint _ => none
  | .decl d => some d

/-- Read the body of a declaration. -/
def readBody : DeclWord → Reader (Body Decl)
  | .type => return .type (← readMembers decl levels)
  | .tuple => return .tuple (← readTupleMembers decl levels)
  | .interface => do
      let items ← braced (readInterfaceItem decl levels)
      return .interface (items.filterMap InterfaceItem.member?)
        (items.filterMap InterfaceItem.subType?)
  | .enum => do
      let type ← after (.keyword .asWord) (readType levels)
      return .enum type (← braced readEnumMember)
  | .service => do
      let items ← braced (readServiceItem decl levels)
      return .service (items.filterMap ServiceItem.endpoint?)
        (items.filterMap ServiceItem.decl?)

/-- Read a declaration whose nested declarations are read by `decl`. -/
def readDeclWith : Reader Decl := do
  let doc ← takeDoc
  let start := (← get).span
  let attributes ← readAttributes
  let word ← readDeclWord
  let name ← readTypeIdent "declaration name"
  let body ← readBody decl levels word
  return { doc, attributes, name, body, span := start.cover (← get).last }

end Bodies

/-- Read a declaration that may nest the given number of levels. -/
def readDecl : Nat → Reader Decl
  | 0 => failNesting
  | levels + 1 => readDeclWith (readDecl levels) levels

end Declarations

section Files

/-- An import or a declaration. -/
inductive Item where
  | imported (decl : Import)
  | decl (decl : Decl)

/-- Read an import or a declaration. -/
def readItem : Reader Item := do
  if (← get).isAt (.keyword .useWord) then return .imported (← readImport)
  else return .decl (← readDecl maxNesting)

/-- Skip lexemes up to a place at which reading goes on: before a terminal that begins an import or
a declaration, or after the brace that closes the last open one. -/
def recover
    (depth : Nat)
    (last : Span) :
    List Lexeme → List Lexeme × Nat × Span
  | [] => ([], depth, last)
  | lexeme :: rest =>
      if depth == 0 && (beginsDecl lexeme.symbol || lexeme.symbol == .keyword .useWord) then
        (lexeme :: rest, depth, last)
      else
        let next := Cursor.depthAfter depth lexeme.symbol
        if lexeme.symbol == .punctuation .closeBrace && next == 0 then (rest, next, lexeme.span)
        else recover next lexeme.span rest

/-- The cursor after recovery. -/
def Cursor.recovered
    (c : Cursor) :
    Cursor :=
  let (rest, depth, last) := recover c.depth c.last c.rest
  { c with rest, depth, last }

/-- The items of a file and the errors between them, in their order.  The first argument bounds
their number. -/
def readItems : Nat → Cursor → List (Except ParseError Item)
  | 0, _ => []
  | rounds + 1, c =>
      if c.rest.isEmpty then []
      else
        match readItem c with
        | .ok item next => .ok item :: readItems rounds next
        | .error e next => .error e :: readItems rounds next.recovered

/-- The imports among the items of a file. -/
def Item.import? : Except ParseError Item → Option Import
  | .ok (.imported i) => some i
  | _ => none

/-- The declarations among the items of a file. -/
def Item.decl? : Except ParseError Item → Option Decl
  | .ok (.decl d) => some d
  | _ => none

/-- The errors among the items of a file. -/
def Item.error? : Except ParseError Item → Option ParseError
  | .error e => some e
  | .ok _ => none

/-- The tree of a list of lexemes, and the errors in their order. -/
def ofLexemes
    (file size : Nat)
    (lexemes : List Lexeme) :
    List (Except ParseError Item) :=
  readItems (lexemes.length + 1)
    { rest := lexemes
      depth := 0
      last := ⟨file, 0, 0⟩
      eof := ⟨file, size, size⟩ }

/-- The tree of a source text, as far as it could be read, and all errors: those of single tokens
first. -/
def parse
    (file : Nat)
    (source : String) :
    File × List ParseError :=
  let found := Lexeme.ofSource file source
  let items := ofLexemes file source.utf8ByteSize found.lexemes
  ({ doc := found.packageDoc
     imports := items.filterMap Item.import?
     decls := items.filterMap Item.decl? },
    found.errors ++ items.filterMap Item.error?)

end Files

end Tree
end Schemata
