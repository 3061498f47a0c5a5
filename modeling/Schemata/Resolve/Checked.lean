import Schemata.Resolve.Error

/-!
# Values with the errors found on the way

Resolution never stops at an error: each step gives a value, and the errors
that were found while it was computed, in the order in which they were found.
-/

namespace Schemata

/-- A value and the errors found on the way to it. -/
structure Checked (α : Type) where
  value : α
  errors : List ResolveError

namespace Checked

/-- A value without errors. -/
protected def pure
    {α : Type}
    (a : α) :
    Checked α :=
  ⟨a, []⟩

/-- Go on from a value; the errors follow each other. -/
protected def bind
    {α β : Type}
    (x : Checked α)
    (f : α → Checked β) :
    Checked β :=
  ⟨(f x.value).value, x.errors ++ (f x.value).errors⟩

instance : Monad Checked where
  pure := Checked.pure
  bind := Checked.bind

/-- Report errors. -/
def report
    (errors : List ResolveError) :
    Checked Unit :=
  ⟨(), errors⟩

variable {α β : Type}

@[simp] theorem value_pure
    (a : α) :
    (pure a : Checked α).value = a :=
  rfl

@[simp] theorem errors_pure
    (a : α) :
    (pure a : Checked α).errors = [] :=
  rfl

@[simp] theorem value_bind
    (x : Checked α)
    (f : α → Checked β) :
    (x >>= f).value = (f x.value).value :=
  rfl

@[simp] theorem errors_bind
    (x : Checked α)
    (f : α → Checked β) :
    (x >>= f).errors = x.errors ++ (f x.value).errors :=
  rfl

end Checked

/-- Names that have been seen, each with its first place. -/
abbrev Seen := List (String × Span)

namespace Seen

/-- The place of a name. -/
def place?
    (seen : Seen)
    (name : String) :
    Option Span :=
  seen.lookup name

end Seen

/-- The errors of names that repeat an earlier one.  `what` says what the names are for. -/
def repeatedNames
    (what : String)
    (seen : Seen) :
    List (Located String) → List ResolveError
  | [] => []
  | name :: rest =>
      match seen.place? name.value with
      | some previous =>
          .repeated name.span previous (.duplicateName what name.value)
            :: repeatedNames what seen rest
      | none => repeatedNames what (seen ++ [(name.value, name.span)]) rest

end Schemata
