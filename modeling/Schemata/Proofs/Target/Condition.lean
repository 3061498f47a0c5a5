import Schemata.Emit.Code
import Schemata.Proofs.Text.Cut
import Schemata.Proofs.Text.Literal

/-!
# Conditions on keys, and the code that tests them

The case of an untagged interface is told by the keys of an object.  Each
language writes the condition of a case in a form of its own: a text in front,
the keys as string literals with a text before and after each and a separator
between them, and a text behind.  A condition is read back to its keys, since a
literal ends where it ends and what follows tells a further key from the end.

A method that looks for a case is run statement by statement.  A block is
entered if the object passes all tests of its condition and skipped otherwise,
a statement that throws ends the run, and other lines are passed over.

**Results.**
* `ConditionForm.keys?_text`: a condition is read back to its keys.
* `ConditionForm.run_method`: branches are tried in their order, and the first
  one that passes is entered.
-/

namespace Schemata

namespace Code

/-- A statement of code: a line, a block with its header, or deeper code that no header opens. -/
inductive Statement where
  | line (text : String)
  | block (header : String) (body : Code)
  | loose (body : Code)

/-- The statements of code.  A block is a header, its inside and the line that closes it. -/
def statements : Code → List Statement
  | [] => []
  | .line header :: .indented body :: .line _ :: rest => .block header body :: statements rest
  | .line text :: rest => .line text :: statements rest
  | .blank :: rest => statements rest
  | .indented body :: rest => .loose body :: statements rest

/-- The inside of a statement that is a block. -/
def Statement.body? : Statement → Option Code
  | block _ body => some body
  | line _ | loose _ => none

/-- The inside of a statement that is a block with this header. -/
def Statement.inside?
    (header : String) :
    Statement → Option Code
  | block other body => if other = header then some body else none
  | line _ | loose _ => none

/-- The inside of the first block. -/
def firstBlock?
    (code : Code) :
    Option Code :=
  code.statements.findSome? Statement.body?

/-- The inside of the first block with a header. -/
def inside?
    (header : String)
    (code : Code) :
    Option Code :=
  code.statements.findSome? (Statement.inside? header)

theorem statements_block
    (header : String)
    (body rest : Code) :
    statements (block header body ++ rest) =
      .block (header ++ " \x7b") body :: statements rest :=
  rfl

theorem statements_blank
    (rest : Code) :
    statements (blank ++ rest) = statements rest :=
  rfl

theorem inside?_block
    (header : String)
    (body rest : Code) :
    inside? (header ++ " \x7b") (block header body ++ rest) = some body := by
  rw [inside?, statements_block, List.findSome?_cons, Statement.inside?, if_pos rfl]

/-- Code that does not begin with deeper code. -/
def Flush
    (code : Code) : Prop :=
  ∀ body rest, code ≠ .indented body :: rest

theorem flush_line
    (text : String)
    (rest : Code) :
    Flush (line text ++ rest) :=
  fun _ _ h => nomatch h

theorem flush_blank
    (rest : Code) :
    Flush (blank ++ rest) :=
  fun _ _ h => nomatch h

theorem statements_line
    {rest : Code}
    (hrest : rest.Flush)
    (text : String) :
    statements (line text ++ rest) = .line text :: statements rest := by
  match rest with
  | [] => rfl
  | .line _ :: _ => rfl
  | .blank :: _ => rfl
  | .indented body :: rest => exact absurd rfl (hrest body rest)

theorem flush_lines_append
    (texts : List String)
    {rest : Code}
    (hrest : rest.Flush) :
    Flush (lines texts ++ rest) := by
  cases texts with
  | nil =>
      exact hrest
  | cons text texts =>
      exact flush_line text _

theorem statements_lines
    (texts : List String)
    {rest : Code}
    (hrest : rest.Flush) :
    statements (lines texts ++ rest) = texts.map Statement.line ++ statements rest := by
  induction texts with
  | nil =>
      rfl
  | cons text texts ih =>
      have hstep := statements_line (flush_lines_append texts hrest) text
      exact hstep.trans (congrArg (Statement.line text :: ·) ih)

theorem flush_flatMap
    {α : Type}
    {part : α → Code}
    (hpart : ∀ a rest, Flush (part a ++ rest))
    (as : List α)
    {rest : Code}
    (hrest : rest.Flush) :
    Flush (as.flatMap part ++ rest) := by
  cases as with
  | nil =>
      exact hrest
  | cons a as =>
      rw [List.flatMap_cons, List.append_assoc]
      exact hpart a _

/-- Code in parts that are one statement each. -/
theorem statements_flatMap
    {α : Type}
    {part : α → Code}
    {statement : α → Statement}
    (hpart : ∀ a rest, statements (part a ++ rest) = statement a :: statements rest)
    (as : List α)
    (rest : Code) :
    statements (as.flatMap part ++ rest) = as.map statement ++ statements rest := by
  induction as with
  | nil =>
      rfl
  | cons a as ih =>
      rw [List.flatMap_cons, List.append_assoc, hpart, ih]
      rfl

/-- The first block after documentation is the first block of what is documented. -/
theorem firstBlock?_doc
    (mark : String)
    (texts : List String)
    {rest : Code}
    (hrest : rest.Flush) :
    (doc mark texts ++ rest).firstBlock? = rest.firstBlock? := by
  have hdoc : doc mark texts = lines (texts.map fun text =>
      if text.isEmpty then mark else s!"{mark} {text}") := by
    simp [doc, lines]
  rw [hdoc, firstBlock?, firstBlock?, statements_lines _ hrest, List.findSome?_append,
    List.findSome?_eq_none_iff.mpr, Option.none_or]
  intro statement hstatement
  obtain ⟨text, -, rfl⟩ := List.mem_map.mp hstatement
  rfl

end Code

namespace Target

/-- The form in which a language writes the condition that an object has certain keys. -/
structure ConditionForm where
  /-- What stands in front. -/
  opening : String
  /-- What stands in place of the tests if there are none. -/
  nothing : String
  /-- What stands before each key. -/
  before : String
  /-- What stands after each key. -/
  after : String
  /-- What stands between two tests. -/
  separator : String
  /-- What stands behind. -/
  closing : String
  /-- The end is not taken for a further test. -/
  separator_apart : ¬ separator.toList <+: closing.toList
  /-- A condition without tests is not taken for one with tests. -/
  nothing_apart : ¬ before.toList ++ ['\x22'] <+: nothing.toList ++ closing.toList

namespace ConditionForm

variable (form : ConditionForm)

section Reading

/-- The test of one key. -/
def test
    (key : String) :
    String :=
  form.before ++ Text.literal key ++ form.after

/-- The condition that an object has all of some keys. -/
def text
    (keys : List String) :
    String :=
  form.opening
    ++ (if keys.isEmpty then form.nothing
        else String.intercalate form.separator (keys.map form.test))
    ++ form.closing

/-- The keys of tests, up to the end of the condition.  The first argument bounds their number. -/
def tests? : Nat → List Char → Option (List String)
  | 0, _ => none
  | steps + 1, cs => do
      let cs ← Text.stripPrefix? form.before.toList cs
      let key ← Json.literal? cs
      let cs ← Text.stripPrefix? form.after.toList key.2
      if cs = form.closing.toList then some [key.1]
      else
        let cs ← Text.stripPrefix? form.separator.toList cs
        return key.1 :: (← tests? steps cs)

/-- The keys that a condition tests. -/
def keys?
    (condition : String) :
    Option (List String) := do
  let cs ← Text.stripPrefix? form.opening.toList condition.toList
  if cs = form.nothing.toList ++ form.closing.toList then some []
  else form.tests? condition.length cs

/-- The tests of some keys, one after the other. -/
def joined
    (keys : List String) :
    List Char :=
  (String.intercalate form.separator (keys.map form.test)).toList

theorem toList_test
    (key : String)
    (rest : List Char) :
    (form.test key).toList ++ rest =
      form.before.toList ++ ((Text.literal key).toList ++ (form.after.toList ++ rest)) := by
  simp [test]

theorem joined_singleton
    (key : String) :
    form.joined [key] = (form.test key).toList := by
  simp [joined]

theorem joined_cons_cons
    (key next : String)
    (keys : List String) :
    form.joined (key :: next :: keys) =
      (form.test key).toList ++ (form.separator.toList ++ form.joined (next :: keys)) := by
  simp [joined, String.toList_intercalate]

theorem exists_joined_cons
    (key : String)
    (keys : List String) :
    ∃ rest, form.joined (key :: keys) = (form.test key).toList ++ rest := by
  cases keys with
  | nil =>
      exact ⟨[], by rw [joined_singleton, List.append_nil]⟩
  | cons next keys =>
      exact ⟨_, form.joined_cons_cons key next keys⟩

theorem length_lt_joined
    (key : String)
    (keys : List String) :
    keys.length < (form.joined (key :: keys)).length := by
  have htest : ∀ key, 0 < (form.test key).toList.length := by
    intro key
    simp only [test, Text.literal, String.toList_append, String.toList_ofList, List.length_append,
      List.length_cons]
    omega
  induction keys generalizing key with
  | nil =>
      rw [joined_singleton]
      exact htest key
  | cons next keys ih =>
      have hkey := htest key
      have hnext := ih next
      rw [joined_cons_cons, List.length_append, List.length_append, List.length_cons]
      omega

/-- A condition with tests is not the one without. -/
theorem joined_ne_nothing
    (key : String)
    (keys : List String) :
    form.joined (key :: keys) ++ form.closing.toList ≠
      form.nothing.toList ++ form.closing.toList := by
  intro heq
  obtain ⟨rest, hrest⟩ := form.exists_joined_cons key keys
  refine form.nothing_apart ?_
  rw [← heq, hrest, List.append_assoc, toList_test, List.prefix_append_right_inj]
  simp [Text.literal]

/-- Reading one test. -/
theorem tests?_test
    (steps : Nat)
    (key : String)
    (rest : List Char) :
    form.tests? (steps + 1) ((form.test key).toList ++ rest) =
      if rest = form.closing.toList then some [key]
      else do
        let cs ← Text.stripPrefix? form.separator.toList rest
        return key :: (← form.tests? steps cs) := by
  rw [toList_test, tests?, Text.stripPrefix?_append]
  simp only [Option.bind_eq_bind, Option.bind_some, Json.literal?_literal,
    Text.stripPrefix?_append]

/-- The tests of a condition are read back, given enough steps. -/
theorem tests?_joined
    {steps : Nat}
    {key : String}
    {keys : List String}
    (hsteps : keys.length < steps) :
    form.tests? steps (form.joined (key :: keys) ++ form.closing.toList) = some (key :: keys) := by
  obtain ⟨steps, rfl⟩ := Nat.exists_eq_add_one_of_ne_zero (Nat.ne_zero_of_lt hsteps)
  induction keys generalizing key steps with
  | nil =>
      rw [joined_singleton, tests?_test, if_pos rfl]
  | cons next keys ih =>
      obtain ⟨steps, rfl⟩ :=
        Nat.exists_eq_add_one_of_ne_zero (Nat.ne_zero_of_lt (Nat.lt_of_succ_lt_succ hsteps))
      -- What follows the first test begins with the separator, so it is not the end.
      have hmore : form.separator.toList ++ (form.joined (next :: keys) ++ form.closing.toList) ≠
          form.closing.toList :=
        fun heq => form.separator_apart ⟨_, heq⟩
      rw [joined_cons_cons, List.append_assoc, List.append_assoc, tests?_test, if_neg hmore,
        Text.stripPrefix?_append]
      simp only [Option.bind_eq_bind, Option.bind_some,
        ih steps (Nat.lt_of_succ_lt_succ hsteps)]
      rfl

/-- A condition is read back to its keys. -/
theorem keys?_text
    (keys : List String) :
    form.keys? (form.text keys) = some keys := by
  cases keys with
  | nil =>
      simp [keys?, text, Text.stripPrefix?_append]
  | cons key keys =>
      have hform : (form.text (key :: keys)).toList =
          form.opening.toList ++ (form.joined (key :: keys) ++ form.closing.toList) := by
        simp [text, joined]
      have hlength := form.length_lt_joined key keys
      rw [keys?, hform, Text.stripPrefix?_append]
      simp only [Option.bind_eq_bind, Option.bind_some, if_neg (form.joined_ne_nothing key keys)]
      refine form.tests?_joined ?_
      rw [← String.length_toList, hform, List.length_append, List.length_append]
      omega

end Reading

section Calls

/-- Conditions that test each key by a call which begins with `before`. -/
def calls
    (before : String)
    (hbefore : ¬ before.toList ++ ['\x22'] <+: "true) \x7b".toList) :
    ConditionForm :=
  { opening := "if ("
    nothing := "true"
    before := before
    after := ")"
    separator := " && "
    closing := ") \x7b"
    separator_apart := by decide
    nothing_apart := hbefore }

theorem text_calls
    (before : String)
    (hbefore : ¬ before.toList ++ ['\x22'] <+: "true) \x7b".toList)
    (keys : List String) :
    (calls before hbefore).text keys =
      "if (" ++ (if keys.isEmpty then "true"
        else String.intercalate " && " (keys.map fun key => before ++ Text.literal key ++ ")"))
        ++ ")" ++ " \x7b" := by
  have hclosing : (calls before hbefore).closing = ")" ++ " \x7b" := rfl
  rw [text, hclosing, ← String.append_assoc]
  rfl

end Calls

section Running

open Code (Statement)

/-- How the run of a method ends: in the inside of a branch, or in a statement that throws. -/
inductive Outcome where
  | enters (branch : Nat) (body : Code)
  | throws (statement : String)

/-- The statement throws. -/
def isThrow
    (text : String) :
    Bool :=
  (Text.stripPrefix? "throw ".toList text.toList).isSome

theorem isThrow_append
    {text : String}
    (h : isThrow text = true)
    (more : String) :
    isThrow (text ++ more) = true := by
  obtain ⟨rest, hrest⟩ := Option.isSome_iff_exists.mp h
  rw [isThrow, String.toList_append, Text.eq_append_of_stripPrefix? hrest, List.append_assoc,
    Text.stripPrefix?_append]
  rfl

/-- The block that is entered if an object has all of some keys. -/
def branch
    (keys : List String)
    (body : Code) :
    Statement :=
  .block (form.text keys) body

/-- Run statements.  Every block is a branch, and branches are counted; `passes` is the test of a
key. -/
def run
    (passes : String → Bool) :
    Nat → List Statement → Option Outcome
  | _, [] => none
  | count, .line text :: rest =>
      if isThrow text then some (.throws text) else run passes count rest
  | count, .block header body :: rest =>
      match form.keys? header with
      | some keys =>
          if keys.all passes then some (.enters count body) else run passes (count + 1) rest
      | none => none
  | _, .loose _ :: _ => none

/-- The outcome of a method whose branches are `reads`, given the branch that it takes. -/
def outcome
    (reads : List Code)
    (failure : String) :
    Option Nat → Option Outcome
  | some index => reads[index]?.map (.enters index)
  | none => some (.throws failure)

variable (passes : String → Bool)

/-- A branch is entered if all its tests pass, and skipped otherwise. -/
theorem run_branch
    (count : Nat)
    (keys : List String)
    (body : Code)
    (rest : List Statement) :
    form.run passes count (form.branch keys body :: rest) =
      if keys.all passes then some (.enters count body)
      else form.run passes (count + 1) rest := by
  simp only [branch, run, keys?_text]

/-- Branches are tried in their order, and the first one that passes is entered. -/
theorem run_branches
    {α : Type}
    (keys : α → List String)
    (read : α → Code)
    (cases : List α)
    (count : Nat)
    (rest : List Statement) :
    form.run passes count (cases.map (fun c => form.branch (keys c) (read c)) ++ rest) =
      match cases.findIdx? fun c => (keys c).all passes with
      | some index => (cases[index]?).map fun c => .enters (count + index) (read c)
      | none => form.run passes (count + cases.length) rest := by
  -- The count of a later branch is its index plus that of the first.
  induction cases generalizing count with
  | nil =>
      rfl
  | cons c cases ih =>
      rw [List.map_cons, List.cons_append, run_branch, List.findIdx?_cons]
      by_cases hpass : (keys c).all passes = true
      · rw [if_pos hpass, if_pos hpass]
        rfl
      · rw [if_neg hpass, if_neg hpass, ih (count + 1)]
        cases cases.findIdx? fun c => (keys c).all passes with
        | none =>
            simp [Nat.add_right_comm, Nat.add_assoc]
        | some index =>
            simp [Nat.add_assoc, Nat.add_comm 1]

theorem run_lines
    {texts : List String}
    (htexts : ∀ text ∈ texts, isThrow text = false)
    (count : Nat)
    (rest : List Statement) :
    form.run passes count (texts.map Statement.line ++ rest) = form.run passes count rest := by
  induction texts with
  | nil =>
      rfl
  | cons text texts ih =>
      have htext : isThrow text = false := htexts text List.mem_cons_self
      rw [List.map_cons, List.cons_append, run, htext,
        ih fun other hother => htexts other (List.mem_cons_of_mem text hother)]
      rfl

/-- A method with some lines, a branch for each case, and a statement that throws at its end. -/
theorem run_method
    {α : Type}
    {texts : List String}
    (htexts : ∀ text ∈ texts, isThrow text = false)
    (keys : α → List String)
    (read : α → Code)
    (cases : List α)
    {failure : String}
    (hfailure : isThrow failure = true) :
    form.run passes 0
        (texts.map Statement.line ++
          (cases.map (fun c => form.branch (keys c) (read c)) ++ [Statement.line failure])) =
      outcome (cases.map read) failure (cases.findIdx? fun c => (keys c).all passes) := by
  rw [run_lines form passes htexts, run_branches]
  cases cases.findIdx? fun c => (keys c).all passes with
  | none =>
      simp [run, hfailure, outcome]
  | some index =>
      simp [outcome, Function.comp_def]

end Running

end ConditionForm

end Target
end Schemata
