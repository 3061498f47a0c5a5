import Schemata.Proofs.Tree.Cursor

/-!
# The grammar of schema files

A phrase relates lexemes to what they mean.  The phrases below are the rules of
the grammar:

    file        := (use | decl)*
    use         := "use" ident ("." ident)* string? ("as" ident)? ";"
    decl        := attribute* word TypeIdent body
    attribute   := "#" "[" ident ("(" list(ident ("=" literal)?) ")")? "]"
    type, tuple := "{" member* "}"
    tuple       := "(" list(field_parts) ")" ";"?
    interface   := "{" (member | sub_type)* "}"
    sub_type    := TypeIdent ("as" literal)? ("{" member* "}" | ";")
    enum        := ("as" type_ref)? "{" (TypeIdent ("as" literal)? ";")* "}"
    service     := "{" (endpoint | decl)* "}"
    endpoint    := ident "(" list(ident ":" channel) ")" ("->" channel)? ("as" string)? ";"
    channel     := "stream"? type_ref
    member      := field | decl
    field       := field_parts ";"
    field_parts := ident "?"? ":" type_ref ("as" string)?
    type_ref    := primitive | name | "[" type_ref "]" | "{" type_ref ":" type_ref "}"
                 | "(" type_ref ("," type_ref)* ")"
    name        := (ident "::")? TypeIdent ("::" TypeIdent)*
    list(x)     := (x ("," x)* ","?)?

`TypeWithin n` and `DeclWithin n` are the types and declarations that nest at most `n`
levels; a level is a type or a declaration around another one.  Documentation
may stand before any lexeme; an item has that of its first one, and the place
from its first lexeme to its last.
-/

namespace Schemata
namespace Tree
namespace Grammar

/-- What lexemes mean. -/
abbrev Phrase (α : Type) := List Lexeme → α → Prop

/-- The place from the first lexeme to the last. -/
def spanOf
    (part : List Lexeme) :
    Span :=
  match part.head?, part.getLast? with
  | some first, some last => first.span.cover last.span
  | _, _ => default

/-- The documentation before the first lexeme. -/
def docOf
    (part : List Lexeme) :
    List String :=
  (part.head?.map (·.doc)).getD []

section Shapes

variable {α : Type}

/-- Nothing or a phrase. -/
inductive Maybe
    (P : Phrase α) :
    Phrase (Option α)
  | absent :
      Maybe P [] none
  | present
      {part : List Lexeme}
      {a : α}
      (h : P part a) :
      Maybe P part (some a)

/-- Nothing or one lexeme. -/
inductive Flag
    (symbol : Terminal) :
    Phrase Bool
  | off :
      Flag symbol [] false
  | on
      {l : Lexeme}
      (hl : l.symbol = symbol) :
      Flag symbol [l] true

/-- A phrase after a lexeme. -/
inductive Led
    (symbol : Terminal)
    (P : Phrase α) :
    Phrase α
  | mk
      {l : Lexeme}
      {part : List Lexeme}
      {a : α}
      (hl : l.symbol = symbol)
      (h : P part a) :
      Led symbol P (l :: part) a

/-- A phrase between two marks. -/
inductive Enclosed
    (opening closing : Punctuation)
    (P : Phrase α) :
    Phrase α
  | mk
      {l r : Lexeme}
      {part : List Lexeme}
      {a : α}
      (hl : l.symbol = .punctuation opening)
      (h : P part a)
      (hr : r.symbol = .punctuation closing) :
      Enclosed opening closing P (l :: part ++ [r]) a

/-- Phrases one after the other. -/
inductive Many
    (P : Phrase α) :
    Phrase (List α)
  | nil :
      Many P [] []
  | cons
      {p q : List Lexeme}
      {a : α}
      {as : List α}
      (h : P p a)
      (hrest : Many P q as) :
      Many P (p ++ q) (a :: as)

/-- At least one phrase, with a mark between each two. -/
inductive Separated
    (mark : Punctuation)
    (P : Phrase α) :
    Phrase (List α)
  | mk
      {p q : List Lexeme}
      {a : α}
      {as : List α}
      (h : P p a)
      (hrest : Many (Led (.punctuation mark) P) q as) :
      Separated mark P (p ++ q) (a :: as)

/-- Phrases with commas between them and perhaps after the last. -/
inductive CommaList
    (P : Phrase α) :
    Phrase (List α)
  | nil :
      CommaList P [] []
  | last
      {part : List Lexeme}
      {a : α}
      (h : P part a) :
      CommaList P part [a]
  | cons
      {p q : List Lexeme}
      {l : Lexeme}
      {a : α}
      {as : List α}
      (h : P p a)
      (hl : l.symbol = .punctuation .comma)
      (hrest : CommaList P q as) :
      CommaList P (p ++ l :: q) (a :: as)

/-- A phrase in its place. -/
inductive Placed
    (P : Phrase α) :
    Phrase (Located α)
  | mk
      {part : List Lexeme}
      {a : α}
      (h : P part a) :
      Placed P part ⟨a, spanOf part⟩

/-- Phrases in braces. -/
abbrev Braced
    (P : Phrase α) :
    Phrase (List α) :=
  Enclosed .openBrace .closeBrace (Many P)

/-- Phrases with commas, in parentheses. -/
abbrev Listed
    (P : Phrase α) :
    Phrase (List α) :=
  Enclosed .openParen .closeParen (CommaList P)

end Shapes

section Words

/-- An identifier. -/
inductive Ident : Phrase (Located String)
  | mk
      {l : Lexeme}
      {name : String}
      (hl : l.symbol = .ident name) :
      Ident [l] ⟨unescape name, l.span⟩

/-- The name of a type. -/
inductive TypeIdent : Phrase (Located String)
  | mk
      {l : Lexeme}
      {name : String}
      (hl : l.symbol = .typeIdent name) :
      TypeIdent [l] ⟨name, l.span⟩

/-- A string literal. -/
inductive Text : Phrase (Located String)
  | mk
      {l : Lexeme}
      {value : String}
      (hl : l.symbol = .string value) :
      Text [l] ⟨value, l.span⟩

/-- A literal value; the text of a number must be one that can be read. -/
inductive Constant : Phrase (Located Literal)
  | string
      {l : Lexeme}
      {value : String}
      (hl : l.symbol = .string value) :
      Constant [l] ⟨.string value, l.span⟩
  | number
      {l : Lexeme}
      {text : String}
      {number : Number}
      (hl : l.symbol = .number text)
      (hnumber : Number.parse text = .ok number) :
      Constant [l] ⟨.number number, l.span⟩
  | yes
      {l : Lexeme}
      (hl : l.symbol = .keyword .trueWord) :
      Constant [l] ⟨.boolean true, l.span⟩
  | no
      {l : Lexeme}
      (hl : l.symbol = .keyword .falseWord) :
      Constant [l] ⟨.boolean false, l.span⟩
  | identifier
      {l : Lexeme}
      {name : String}
      (hl : l.symbol = .ident name) :
      Constant [l] ⟨.identifier (unescape name), l.span⟩

end Words

section Types

/-- The local name of an imported package before a name. -/
inductive Qualifier : Phrase String
  | mk
      {l sep : Lexeme}
      {name : String}
      (hl : l.symbol = .ident name)
      (hsep : sep.symbol = .punctuation .colonColon) :
      Qualifier [l, sep] name

/-- The name of a declaration. -/
inductive Name : Phrase TypeName
  | mk
      {part p q : List Lexeme}
      {qualifier : Option String}
      {path : List (Located String)}
      (hpart : part = p ++ q)
      (hqualifier : Maybe Qualifier p qualifier)
      (hpath : Separated .colonColon TypeIdent q path) :
      Name part ⟨qualifier, path.map (·.value), spanOf part⟩

/-- The key and the value of a map. -/
inductive MapEntry
    (inner : Phrase TypeExpr) :
    Phrase (TypeExpr × TypeExpr)
  | mk
      {p q : List Lexeme}
      {colon : Lexeme}
      {key value : TypeExpr}
      (hkey : inner p key)
      (hcolon : colon.symbol = .punctuation .colon)
      (hvalue : inner q value) :
      MapEntry inner (p ++ colon :: q) (key, value)

/-- A type around types of the given phrase. -/
inductive TypeOver
    (inner : Phrase TypeExpr) :
    Phrase TypeExpr
  | primitive
      {l : Lexeme}
      {type : Primitive}
      (hl : l.symbol = .keyword (.primitive type)) :
      TypeOver inner [l] (.primitive type)
  | name
      {part : List Lexeme}
      {name : TypeName}
      (h : Name part name) :
      TypeOver inner part (.name name)
  | array
      {part : List Lexeme}
      {item : TypeExpr}
      (h : Enclosed .openBracket .closeBracket inner part item) :
      TypeOver inner part (.array item)
  | map
      {part : List Lexeme}
      {key value : TypeExpr}
      (h : Enclosed .openBrace .closeBrace (MapEntry inner) part (key, value)) :
      TypeOver inner part (.map key value)
  | tuple
      {part : List Lexeme}
      {items : List TypeExpr}
      (h : Enclosed .openParen .closeParen (Separated .comma inner) part items) :
      TypeOver inner part (.tuple items)

/-- A type that nests at most the given number of levels. -/
def TypeWithin : Nat → Phrase TypeExpr
  | 0 => fun _ _ => False
  | levels + 1 => TypeOver (TypeWithin levels)

/-- A type that may be a stream. -/
inductive Stream
    (type : Phrase TypeExpr) :
    Phrase Channel
  | mk
      {p q : List Lexeme}
      {streaming : Bool}
      {found : Located TypeExpr}
      (hstreaming : Flag (.keyword .streamWord) p streaming)
      (htype : Placed type q found) :
      Stream type (p ++ q) ⟨streaming, found⟩

end Types

section Parts

/-- An import. -/
inductive Use : Phrase Import
  | mk
      {part p q r : List Lexeme}
      {use stop : Lexeme}
      {first : Located String}
      {more : List (Located String)}
      {range alias? : Option (Located String)}
      (hpart : part = use :: p ++ q ++ r ++ [stop])
      (huse : use.symbol = .keyword .useWord)
      (hname : Separated .fullStop Ident p (first :: more))
      (hrange : Maybe Text q range)
      (halias : Maybe (Led (.keyword .asWord) Ident) r alias?)
      (hstop : stop.symbol = .punctuation .semicolon) :
      Use part
        { package :=
            ⟨⟨(first :: more).map (·.value)⟩,
              more.foldl (fun span name => span.cover name.span) first.span⟩
          range
          alias?
          span := spanOf part }

/-- An argument of an attribute. -/
inductive AttributeArgument : Phrase Argument
  | mk
      {p q : List Lexeme}
      {name : Located String}
      {value : Option (Located Literal)}
      (hname : Ident p name)
      (hvalue : Maybe (Led (.punctuation .equals) Constant) q value) :
      AttributeArgument (p ++ q) ⟨name, value⟩

/-- An attribute. -/
inductive HashAttribute : Phrase Attribute
  | mk
      {part p q : List Lexeme}
      {hash opening closing : Lexeme}
      {name : Located String}
      {args : Option (List Argument)}
      (hpart : part = hash :: opening :: p ++ q ++ [closing])
      (hhash : hash.symbol = .punctuation .hash)
      (hopening : opening.symbol = .punctuation .openBracket)
      (hname : Ident p name)
      (hargs : Maybe (Listed AttributeArgument) q args)
      (hclosing : closing.symbol = .punctuation .closeBracket) :
      HashAttribute part ⟨name, args.getD [], spanOf part⟩

/-- A field without what ends it. -/
inductive FieldParts
    (type : Phrase TypeExpr) :
    Phrase Field
  | mk
      {part p q r s : List Lexeme}
      {colon : Lexeme}
      {name : Located String}
      {optional : Bool}
      {found : Located TypeExpr}
      {alias? : Option (Located String)}
      (hpart : part = p ++ q ++ colon :: r ++ s)
      (hname : Ident p name)
      (hoptional : Flag (.punctuation .question) q optional)
      (hcolon : colon.symbol = .punctuation .colon)
      (htype : Placed type r found)
      (halias : Maybe (Led (.keyword .asWord) Text) s alias?) :
      FieldParts type part ⟨docOf part, name, optional, found, alias?, spanOf part⟩

/-- A field and the semicolon that ends it. -/
inductive FieldLine
    (type : Phrase TypeExpr) :
    Phrase Field
  | mk
      {part : List Lexeme}
      {stop : Lexeme}
      {field : Field}
      (h : FieldParts type part field)
      (hstop : stop.symbol = .punctuation .semicolon) :
      FieldLine type (part ++ [stop]) { field with span := field.span.cover stop.span }

/-- A member of an enum. -/
inductive EnumLine : Phrase EnumMember
  | mk
      {part p q : List Lexeme}
      {stop : Lexeme}
      {name : Located String}
      {value : Option (Located Literal)}
      (hpart : part = p ++ q ++ [stop])
      (hname : TypeIdent p name)
      (hvalue : Maybe (Led (.keyword .asWord) Constant) q value)
      (hstop : stop.symbol = .punctuation .semicolon) :
      EnumLine part ⟨docOf part, name, value, spanOf part⟩

/-- An argument of an endpoint. -/
inductive ChannelArgument
    (type : Phrase TypeExpr) :
    Phrase EndpointArgument
  | mk
      {p q : List Lexeme}
      {colon : Lexeme}
      {name : Located String}
      {channel : Channel}
      (hname : Ident p name)
      (hcolon : colon.symbol = .punctuation .colon)
      (hchannel : Stream type q channel) :
      ChannelArgument type (p ++ colon :: q) ⟨name, channel⟩

/-- An endpoint. -/
inductive EndpointLine
    (type : Phrase TypeExpr) :
    Phrase Endpoint
  | mk
      {part p q r s : List Lexeme}
      {stop : Lexeme}
      {name : Located String}
      {arguments : List EndpointArgument}
      {response : Option Channel}
      {alias? : Option (Located String)}
      (hpart : part = p ++ q ++ r ++ s ++ [stop])
      (hname : Ident p name)
      (harguments : Listed (ChannelArgument type) q arguments)
      (hresponse : Maybe (Led (.punctuation .arrow) (Stream type)) r response)
      (halias : Maybe (Led (.keyword .asWord) Text) s alias?)
      (hstop : stop.symbol = .punctuation .semicolon) :
      EndpointLine type part ⟨docOf part, name, arguments, response, alias?, spanOf part⟩

end Parts

section Declarations

variable (decl : Phrase Decl)
variable (type : Phrase TypeExpr)

/-- A field or a nested declaration. -/
inductive MemberOver : Phrase (Member Decl)
  | field
      {part : List Lexeme}
      {f : Field}
      (h : FieldLine type part f) :
      MemberOver part (.field f)
  | decl
      {part : List Lexeme}
      {d : Decl}
      (h : decl part d) :
      MemberOver part (.decl d)

/-- The body of a tuple. -/
inductive TupleBody : Phrase (List (Member Decl))
  | inline
      {p q : List Lexeme}
      {fields : List Field}
      {ended : Bool}
      (hfields : Listed (FieldParts type) p fields)
      (hended : Flag (.punctuation .semicolon) q ended) :
      TupleBody (p ++ q) (fields.map .field)
  | braced
      {part : List Lexeme}
      {members : List (Member Decl)}
      (h : Braced (MemberOver decl type) part members) :
      TupleBody part members

/-- The members of a case of an interface. -/
inductive SubTypeBody : Phrase (List (Member Decl))
  | braced
      {part : List Lexeme}
      {members : List (Member Decl)}
      (h : Braced (MemberOver decl type) part members) :
      SubTypeBody part members
  | empty
      {l : Lexeme}
      (hl : l.symbol = .punctuation .semicolon) :
      SubTypeBody [l] []

/-- A case of an interface. -/
inductive SubTypeOver : Phrase (SubType Decl)
  | mk
      {part p q r : List Lexeme}
      {name : Located String}
      {alias? : Option (Located Literal)}
      {members : List (Member Decl)}
      (hpart : part = p ++ q ++ r)
      (hname : TypeIdent p name)
      (halias : Maybe (Led (.keyword .asWord) Constant) q alias?)
      (hmembers : SubTypeBody decl type r members) :
      SubTypeOver part ⟨docOf part, name, alias?, members, spanOf part⟩

/-- A member or a case of an interface. -/
inductive InterfaceLine : Phrase InterfaceItem
  | member
      {part : List Lexeme}
      {m : Member Decl}
      (h : MemberOver decl type part m) :
      InterfaceLine part (.member m)
  | subType
      {part : List Lexeme}
      {s : SubType Decl}
      (h : SubTypeOver decl type part s) :
      InterfaceLine part (.subType s)

/-- An endpoint or a nested declaration of a service. -/
inductive ServiceLine : Phrase ServiceItem
  | endpoint
      {part : List Lexeme}
      {e : Endpoint}
      (h : EndpointLine type part e) :
      ServiceLine part (.endpoint e)
  | decl
      {part : List Lexeme}
      {d : Decl}
      (h : decl part d) :
      ServiceLine part (.decl d)

/-- The body of a declaration of each kind. -/
inductive BodyOver : DeclWord → Phrase (Body Decl)
  | type
      {part : List Lexeme}
      {members : List (Member Decl)}
      (h : Braced (MemberOver decl type) part members) :
      BodyOver .type part (.type members)
  | tuple
      {part : List Lexeme}
      {members : List (Member Decl)}
      (h : TupleBody decl type part members) :
      BodyOver .tuple part (.tuple members)
  | interface
      {part : List Lexeme}
      {items : List InterfaceItem}
      (h : Braced (InterfaceLine decl type) part items) :
      BodyOver .interface part
        (.interface (items.filterMap InterfaceItem.member?)
          (items.filterMap InterfaceItem.subType?))
  | enum
      {p q : List Lexeme}
      {found : Option (Located TypeExpr)}
      {members : List EnumMember}
      (htype : Maybe (Led (.keyword .asWord) (Placed type)) p found)
      (hmembers : Braced EnumLine q members) :
      BodyOver .enum (p ++ q) (.enum found members)
  | service
      {part : List Lexeme}
      {items : List ServiceItem}
      (h : Braced (ServiceLine decl type) part items) :
      BodyOver .service part
        (.service (items.filterMap ServiceItem.endpoint?) (items.filterMap ServiceItem.decl?))

/-- The keyword of a declaration. -/
inductive Word : Phrase DeclWord
  | mk
      {l : Lexeme}
      {keyword : Keyword}
      {word : DeclWord}
      (hl : l.symbol = .keyword keyword)
      (hword : DeclWord.ofKeyword? keyword = some word) :
      Word [l] word

/-- A declaration around declarations and types of the given phrases. -/
inductive DeclOver : Phrase Decl
  | mk
      {part p q r s : List Lexeme}
      {attributes : List Attribute}
      {word : DeclWord}
      {name : Located String}
      {body : Body Decl}
      (hpart : part = p ++ q ++ r ++ s)
      (hattributes : Many HashAttribute p attributes)
      (hword : Word q word)
      (hname : TypeIdent r name)
      (hbody : BodyOver decl type word s body) :
      DeclOver part ⟨docOf part, attributes, name, body, spanOf part⟩

end Declarations

/-- A declaration that nests at most the given number of levels, those of its types included. -/
def DeclWithin : Nat → Phrase Decl
  | 0 => fun _ _ => False
  | levels + 1 => DeclOver (DeclWithin levels) (TypeWithin levels)

/-- An import or a declaration. -/
inductive FileItem : Phrase Item
  | imported
      {part : List Lexeme}
      {i : Import}
      (h : Use part i) :
      FileItem part (.imported i)
  | decl
      {part : List Lexeme}
      {d : Decl}
      (h : DeclWithin maxNesting part d) :
      FileItem part (.decl d)

/-- A file with the documentation of its package. -/
inductive WholeFile
    (packageDoc : List String) :
    Phrase File
  | mk
      {part : List Lexeme}
      {items : List Item}
      (h : Many FileItem part items) :
      WholeFile packageDoc part
        { doc := packageDoc
          imports := items.filterMap fun item => Item.import? (.ok item)
          decls := items.filterMap fun item => Item.decl? (.ok item) }

section Places

variable {c c' : Cursor}
variable {part : List Lexeme}

/-- The place of a phrase is from where it begins to where it ends. -/
theorem spanOf_of_passes
    (h : c.Passes part c')
    (hne : part ≠ []) :
    spanOf part = c.span.cover c'.last := by
  obtain ⟨front, l, rfl⟩ := (List.eq_nil_or_concat' part).resolve_left hne
  have hlast : c'.last = l.span := h.last
  rw [spanOf, List.getLast?_concat, hlast]
  cases front with
  | nil =>
      rw [show c.span = l.span from Cursor.Passes.span h]
      rfl
  | cons first front =>
      rw [show c.span = first.span from Cursor.Passes.span h]
      rfl

theorem docOf_of_passes
    (h : c.Passes part c')
    (hne : part ≠ []) :
    docOf part = c.doc := by
  cases part with
  | nil =>
      exact absurd rfl hne
  | cons l part =>
      rw [h.doc]
      rfl

end Places

section First

/-- Phrases begin with a terminal of the given kind. -/
def Starts
    {α : Type}
    (P : Phrase α)
    (first : Terminal → Prop) : Prop :=
  ∀ ⦃part a⦄, P part a → ∃ l rest, part = l :: rest ∧ first l.symbol

/-- The terminal is an identifier. -/
def IsIdent
    (symbol : Terminal) : Prop :=
  ∃ name, symbol = .ident name

/-- The terminal is the name of a type. -/
def IsTypeIdent
    (symbol : Terminal) : Prop :=
  ∃ name, symbol = .typeIdent name

theorem Starts.ne_nil
    {α : Type}
    {P : Phrase α}
    {first : Terminal → Prop}
    (h : Starts P first)
    {part : List Lexeme}
    {a : α}
    (hpart : P part a) :
    part ≠ [] := by
  obtain ⟨l, rest, rfl, -⟩ := h hpart
  simp

theorem starts_ident :
    Starts Ident IsIdent := by
  rintro _ _ ⟨hl⟩
  exact ⟨_, [], rfl, _, hl⟩

theorem starts_typeIdent :
    Starts TypeIdent IsTypeIdent := by
  rintro _ _ ⟨hl⟩
  exact ⟨_, [], rfl, _, hl⟩

theorem starts_name :
    Starts Name fun symbol => IsIdent symbol ∨ IsTypeIdent symbol := by
  rintro _ _ ⟨rfl, hqualifier, hpath⟩
  cases hqualifier with
  | absent =>
      cases hpath with
      | mk hfirst _ =>
          obtain ⟨l, rest, rfl, hl⟩ := starts_typeIdent hfirst
          exact ⟨l, _, rfl, .inr hl⟩
  | present h =>
      cases h with
      | mk hl _ =>
          exact ⟨_, _, rfl, .inl ⟨_, hl⟩⟩

/-- Types do not begin like streams. -/
theorem starts_typeWithin
    (levels : Nat) :
    Starts (TypeWithin levels) (· ≠ .keyword .streamWord) := by
  intro part type h
  cases levels with
  | zero =>
      exact h.elim
  | succ levels =>
      cases h with
      | primitive hl =>
          exact ⟨_, [], rfl, by simp [hl]⟩
      | name h =>
          obtain ⟨l, rest, rfl, ⟨_, hl⟩ | ⟨_, hl⟩⟩ := starts_name h
          · exact ⟨l, rest, rfl, by simp [hl]⟩
          · exact ⟨l, rest, rfl, by simp [hl]⟩
      | array h =>
          cases h with
          | mk hl _ _ =>
              exact ⟨_, _, rfl, by simp [hl]⟩
      | map h =>
          cases h with
          | mk hl _ _ =>
              exact ⟨_, _, rfl, by simp [hl]⟩
      | tuple h =>
          cases h with
          | mk hl _ _ =>
              exact ⟨_, _, rfl, by simp [hl]⟩

theorem starts_fieldParts
    (type : Phrase TypeExpr) :
    Starts (FieldParts type) IsIdent := by
  rintro _ _ ⟨rfl, hname, -⟩
  obtain ⟨l, rest, rfl, hl⟩ := starts_ident hname
  exact ⟨l, _, rfl, hl⟩

theorem starts_fieldLine
    (type : Phrase TypeExpr) :
    Starts (FieldLine type) IsIdent := by
  rintro _ _ ⟨h, -⟩
  obtain ⟨l, rest, rfl, hl⟩ := starts_fieldParts type h
  exact ⟨l, _, rfl, hl⟩

theorem starts_enumLine :
    Starts EnumLine IsTypeIdent := by
  rintro _ _ ⟨rfl, hname, -⟩
  obtain ⟨l, rest, rfl, hl⟩ := starts_typeIdent hname
  exact ⟨l, _, rfl, hl⟩

theorem starts_endpointLine
    (type : Phrase TypeExpr) :
    Starts (EndpointLine type) IsIdent := by
  rintro _ _ ⟨rfl, hname, -⟩
  obtain ⟨l, rest, rfl, hl⟩ := starts_ident hname
  exact ⟨l, _, rfl, hl⟩

theorem starts_subTypeOver
    (decl : Phrase Decl)
    (type : Phrase TypeExpr) :
    Starts (SubTypeOver decl type) IsTypeIdent := by
  rintro _ _ ⟨rfl, hname, -⟩
  obtain ⟨l, rest, rfl, hl⟩ := starts_typeIdent hname
  exact ⟨l, _, rfl, hl⟩

theorem starts_attributeArgument :
    Starts AttributeArgument IsIdent := by
  rintro _ _ ⟨hname, -⟩
  obtain ⟨l, rest, rfl, hl⟩ := starts_ident hname
  exact ⟨l, _, rfl, hl⟩

theorem starts_channelArgument
    (type : Phrase TypeExpr) :
    Starts (ChannelArgument type) IsIdent := by
  rintro _ _ ⟨hname, -⟩
  obtain ⟨l, rest, rfl, hl⟩ := starts_ident hname
  exact ⟨l, _, rfl, hl⟩

theorem starts_hashAttribute :
    Starts HashAttribute (· = .punctuation .hash) := by
  rintro _ _ ⟨rfl, hhash, -⟩
  exact ⟨_, _, rfl, hhash⟩

theorem starts_word :
    Starts Word fun symbol => beginsDecl symbol = true ∧ symbol ≠ .punctuation .hash := by
  rintro _ _ ⟨hl, hword⟩
  exact ⟨_, [], rfl, by simp [hl, beginsDecl, hword]⟩

theorem starts_declOver
    (decl : Phrase Decl)
    (type : Phrase TypeExpr) :
    Starts (DeclOver decl type) (beginsDecl · = true) := by
  rintro _ _ ⟨rfl, hattributes, hword, -⟩
  cases hattributes with
  | nil =>
      obtain ⟨l, rest, rfl, hl, -⟩ := starts_word hword
      exact ⟨l, _, rfl, hl⟩
  | cons h _ =>
      obtain ⟨l, rest, rfl, hl⟩ := starts_hashAttribute h
      exact ⟨l, _, rfl, by rw [hl]; rfl⟩

theorem starts_decl
    (levels : Nat) :
    Starts (DeclWithin levels) (beginsDecl · = true) := by
  intro part d h
  cases levels with
  | zero =>
      exact h.elim
  | succ levels =>
      exact starts_declOver _ _ h

theorem starts_memberOver
    {decl : Phrase Decl}
    (hdecl : Starts decl (beginsDecl · = true))
    (type : Phrase TypeExpr) :
    Starts (MemberOver decl type) fun symbol => IsIdent symbol ∨ beginsDecl symbol = true := by
  intro part member h
  cases h with
  | field h =>
      obtain ⟨l, rest, rfl, hl⟩ := starts_fieldLine type h
      exact ⟨l, rest, rfl, .inl hl⟩
  | decl h =>
      obtain ⟨l, rest, rfl, hl⟩ := hdecl h
      exact ⟨l, rest, rfl, .inr hl⟩

theorem starts_interfaceLine
    {decl : Phrase Decl}
    (hdecl : Starts decl (beginsDecl · = true))
    (type : Phrase TypeExpr) :
    Starts (InterfaceLine decl type) fun symbol =>
      IsIdent symbol ∨ IsTypeIdent symbol ∨ beginsDecl symbol = true := by
  intro part item h
  cases h with
  | member h =>
      obtain ⟨l, rest, rfl, hl | hl⟩ := starts_memberOver hdecl type h
      · exact ⟨l, rest, rfl, .inl hl⟩
      · exact ⟨l, rest, rfl, .inr (.inr hl)⟩
  | subType h =>
      obtain ⟨l, rest, rfl, hl⟩ := starts_subTypeOver decl type h
      exact ⟨l, rest, rfl, .inr (.inl hl)⟩

theorem starts_serviceLine
    {decl : Phrase Decl}
    (hdecl : Starts decl (beginsDecl · = true))
    (type : Phrase TypeExpr) :
    Starts (ServiceLine decl type) fun symbol => IsIdent symbol ∨ beginsDecl symbol = true := by
  intro part item h
  cases h with
  | endpoint h =>
      obtain ⟨l, rest, rfl, hl⟩ := starts_endpointLine type h
      exact ⟨l, rest, rfl, .inl hl⟩
  | decl h =>
      obtain ⟨l, rest, rfl, hl⟩ := hdecl h
      exact ⟨l, rest, rfl, .inr hl⟩

theorem starts_use :
    Starts Use (· = .keyword .useWord) := by
  rintro _ _ ⟨rfl, huse, -⟩
  exact ⟨_, _, rfl, huse⟩

/-- Items of a file begin where recovery stops. -/
theorem starts_fileItem :
    Starts FileItem fun symbol =>
      beginsDecl symbol = true ∨ symbol = .keyword .useWord := by
  intro part item h
  cases h with
  | imported h =>
      obtain ⟨l, rest, rfl, hl⟩ := starts_use h
      exact ⟨l, rest, rfl, .inr hl⟩
  | decl h =>
      obtain ⟨l, rest, rfl, hl⟩ := starts_decl _ h
      exact ⟨l, rest, rfl, .inl hl⟩

theorem Ident.span
    {c c' : Cursor}
    {part : List Lexeme}
    {name : Located String}
    (h : Ident part name)
    (hpass : c.Passes part c') :
    name.span = c.span := by
  cases h
  exact hpass.span.symm

theorem TypeIdent.span
    {c c' : Cursor}
    {part : List Lexeme}
    {name : Located String}
    (h : TypeIdent part name)
    (hpass : c.Passes part c') :
    name.span = c.span := by
  cases h
  exact hpass.span.symm

end First

end Grammar
end Tree
end Schemata
