import Schemata.Text.Basic

/-!
# Options on a command line

An option is written with its long name after two dashes or with its letter
after one.  Its value, if it takes one, follows an equals sign or is the next
word; letters may be joined, and the value may be joined to the last of them.
After two dashes alone everything is a word.
-/

namespace Schemata
namespace Command

/-- What an option means. -/
inductive Flag where
  | help
  | version
  | verbose
  | path
  | config
  | versionScheme
  | target
  | out
  | package
  | placement
  | type
deriving DecidableEq, Repr

/-- An option after which nothing more is read. -/
def Flag.isFinal : Flag → Bool
  | help | version => true
  | _ => false

/-- How an option is written. -/
structure OptionForm where
  flag : Flag
  long : String
  short : Option Char
  takesValue : Bool
deriving Repr

/-- An option that was given; its value is empty if it takes none. -/
structure Given where
  flag : Flag
  value : String
deriving DecidableEq, Repr

/-- What was read from a command line: options, and words that are none. -/
structure Scanned where
  options : List Given
  words : List String
deriving Repr

/-- A word that is no option; a dash alone is a word. -/
def isWord
    (token : String) :
    Bool :=
  match token.toList with
  | '-' :: _ :: _ => false
  | _ => true

/-- The options written as joined letters. -/
inductive Cluster where
  /-- All of them, with their values. -/
  | complete (options : List Given)
  /-- All of them but the last, which has its value in the next word. -/
  | waiting (options : List Given) (last : Flag)
deriving Repr

/-- Put an option in front. -/
def Cluster.cons
    (g : Given) :
    Cluster → Cluster
  | complete options => complete (g :: options)
  | waiting options last => waiting (g :: options) last

/-- Read joined letters. -/
def cluster?
    (forms : List OptionForm) :
    List Char → Option Cluster
  | [] => some (.complete [])
  | c :: cs =>
      match forms.find? (·.short == some c) with
      | none => none
      | some form =>
          if form.flag.isFinal then some (.complete [⟨form.flag, ""⟩])
          else if form.takesValue then
            match cs with
            | [] => some (.waiting [] form.flag)
            | '=' :: value => some (.complete [⟨form.flag, String.ofList value⟩])
            | value => some (.complete [⟨form.flag, String.ofList value⟩])
          else (cluster? forms cs).map (·.cons ⟨form.flag, ""⟩)

/-- A long option: its name, and its value if that is joined to it. -/
def cutLong
    (cs : List Char) :
    String × Option String :=
  match Text.cutAt? ['='] cs with
  | some (name, value) => (String.ofList name, some (String.ofList value))
  | none => (String.ofList cs, none)

/-- Read a long option. -/
def long?
    (forms : List OptionForm)
    (cs : List Char) :
    Option Cluster :=
  let (name, value) := cutLong cs
  match forms.find? (·.long == name) with
  | none => none
  | some form =>
      match form.takesValue, value with
      | true, some value => some (.complete [⟨form.flag, value⟩])
      | true, none => some (.waiting [] form.flag)
      | false, none => some (.complete [⟨form.flag, ""⟩])
      | false, some _ => none

/-- Read what one token says. -/
def token?
    (forms : List OptionForm)
    (token : String) :
    Option Cluster :=
  match token.toList with
  | '-' :: '-' :: cs => long? forms cs
  | '-' :: cs => cluster? forms cs
  | _ => none

/-- Put options in front of what is read after them. -/
def Scanned.after
    (options : List Given)
    (s : Scanned) :
    Scanned :=
  { s with options := options ++ s.options }

/-- Read a command line.  If `leading` holds, the first word and all that follows it is left
alone, and there must be such a word before two dashes. -/
def scan?
    (forms : List OptionForm)
    (leading : Bool) :
    List String → Option Scanned
  | [] => some ⟨[], []⟩
  | token :: rest =>
      if token = "--" then if leading then none else some ⟨[], rest⟩
      else if isWord token then
        if leading then some ⟨[], token :: rest⟩
        else (scan? forms leading rest).map fun s => { s with words := token :: s.words }
      else
        match token? forms token, rest with
        | none, _ => none
        | some (.complete options), rest =>
            if options.any (·.flag.isFinal) then some ⟨options, []⟩
            else (scan? forms leading rest).map (·.after options)
        | some (.waiting options last), value :: rest =>
            if isWord value then
              (scan? forms leading rest).map (·.after (options ++ [⟨last, value⟩]))
            else none
        | some (.waiting _ _), [] => none

end Command
end Schemata
