import Schemata.Naming.Casing

/-!
# Naming: reserved words

Each target language reserves words, and marks a name that would be one of
them with an underscore in front or behind.  `spellAll` spells sibling names
so that no two results agree: a name keeps its natural spelling where no
earlier one has it, and is marked again and again where one has.
-/

namespace Schemata
namespace Naming

/-- A language of generated code. -/
inductive Language where
  | csharp
  | swift
  | javascript
deriving DecidableEq, Repr

/-- Where a name is marked. -/
inductive Mark where
  | before (text : String)
  | after (text : String)
deriving DecidableEq, Repr

/-- Mark a name. -/
def Mark.apply : Mark → String → String
  | before text, name => text ++ name
  | after text, name => name ++ text

/-- Reserved words of C#. -/
def csharpWords : List String :=
  ["abstract", "as", "base", "bool", "break", "byte", "case", "catch", "char", "checked",
   "class", "const", "continue", "decimal", "default", "delegate", "do", "double", "else",
   "enum", "event", "explicit", "extern", "false", "finally", "fixed", "float", "for",
   "foreach", "goto", "if", "implicit", "in", "int", "interface", "internal", "is", "lock",
   "long", "namespace", "new", "null", "object", "operator", "out", "override", "params",
   "private", "protected", "public", "readonly", "ref", "return", "sbyte", "sealed", "short",
   "sizeof", "stackalloc", "static", "string", "struct", "switch", "this", "throw", "true",
   "try", "typeof", "uint", "ulong", "unchecked", "unsafe", "ushort", "using", "virtual",
   "void", "volatile", "while"]

/-- Reserved words of Swift. -/
def swiftWords : List String :=
  ["Any", "Self", "as", "associatedtype", "break", "case", "catch", "class", "continue",
   "default", "defer", "deinit", "do", "else", "enum", "extension", "fallthrough", "false",
   "fileprivate", "for", "func", "guard", "if", "import", "in", "init", "inout", "internal",
   "is", "let", "nil", "open", "operator", "private", "protocol", "public", "repeat",
   "rethrows", "return", "self", "static", "struct", "subscript", "super", "switch", "throw",
   "throws", "true", "try", "typealias", "var", "where", "while"]

/-- Reserved words of JavaScript. -/
def javascriptWords : List String :=
  ["arguments", "await", "break", "case", "catch", "class", "const", "continue", "debugger",
   "default", "delete", "do", "else", "enum", "eval", "export", "extends", "false", "finally",
   "for", "function", "if", "implements", "import", "in", "instanceof", "interface", "let",
   "new", "null", "package", "private", "protected", "public", "return", "static", "super",
   "switch", "this", "throw", "true", "try", "typeof", "var", "void", "while", "with", "yield"]

namespace Language

/-- The reserved words of a language. -/
def reserved : Language → List String
  | csharp => csharpWords
  | swift => swiftWords
  | javascript => javascriptWords

/-- How a language marks names. -/
def mark : Language → Mark
  | csharp | javascript => .before "_"
  | swift => .after "_"

/-- The name is a reserved word. -/
def isReserved
    (language : Language)
    (name : String) :
    Bool :=
  language.reserved.contains name

/-- Mark a name if it is reserved. -/
def spell
    (language : Language)
    (name : String) :
    String :=
  if language.isReserved name then language.mark.apply name else name

/-- The spelling of a name by itself: cased, unless nothing is left of it, and marked if that is a
reserved word. -/
def natural
    (language : Language)
    (casing : Casing)
    (name : String) :
    String :=
  let cased := casing.apply name
  language.spell (if cased.isEmpty then name else cased)

/-- Mark a name until it avoids `taken` and, once marked, `natural`.  The first argument bounds the
number of marks. -/
def distinguish
    (language : Language)
    (natural taken : List String)
    (candidate : String) :
    Nat → String → String
  | 0, name => name
  | fuel + 1, name =>
      if taken.contains name || (name != candidate && natural.contains name) then
        distinguish language natural taken candidate fuel (language.mark.apply name)
      else name

/-- Spellings of the remaining names, each distinct from those taken.  Of more marked forms than
there are names, one is free, so the bound on marks is never reached. -/
def distinguishAll
    (language : Language)
    (natural : List String) :
    List String → List String → List String
  | _, [] => []
  | taken, candidate :: rest =>
      let name := distinguish language natural taken candidate
        (taken.length + natural.length + 1) candidate
      name :: distinguishAll language natural (name :: taken) rest

/-- Spell sibling names so that no two agree. -/
def spellAll
    (language : Language)
    (casing : Casing)
    (names : List String) :
    List String :=
  let natural := names.map (language.natural casing)
  distinguishAll language natural [] natural

end Language

end Naming
end Schemata
