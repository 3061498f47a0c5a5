import Schemata.Resolve.Checked
import Mathlib.Tactic

/-!
# Laws of values with errors

Steps of resolution compose: the value of a composed step is the value of its
last part, and its errors are those of the parts in their order.  So a step
has no errors exactly when none of its parts has one.

The second half is about names that are checked against those seen before.
`Fresh seen keys` says that the keys are new and pairwise distinct; a loop that
looks every key up and then adds it reports nothing only for fresh keys.
-/

namespace Schemata
namespace Checked

variable {α β : Type}

instance : LawfulMonad Checked :=
  LawfulMonad.mk' Checked
    (fun x => by
      cases x
      simp [Functor.map, Checked.bind, Checked.pure])
    (fun x f => by
      simp [bind, pure, Checked.bind, Checked.pure])
    (fun x f g => by
      simp [bind, Checked.bind])

@[simp] theorem value_map
    (f : α → β)
    (x : Checked α) :
    (f <$> x).value = f x.value :=
  rfl

@[simp] theorem errors_map
    (f : α → β)
    (x : Checked α) :
    (f <$> x).errors = x.errors := by
  rw [map_eq_pure_bind, errors_bind]
  simp

@[simp] theorem value_report
    (errors : List ResolveError) :
    (report errors).value = () :=
  rfl

@[simp] theorem errors_report
    (errors : List ResolveError) :
    (report errors).errors = errors :=
  rfl

/-- The values of steps that are made one after the other. -/
@[simp] theorem value_mapM
    (f : α → Checked β)
    (xs : List α) :
    (xs.mapM f).value = xs.map fun x => (f x).value := by
  induction xs with
  | nil =>
      rfl
  | cons x xs ih =>
      simp [ih]

/-- The errors of steps that are made one after the other. -/
@[simp] theorem errors_mapM
    (f : α → Checked β)
    (xs : List α) :
    (xs.mapM f).errors = xs.flatMap fun x => (f x).errors := by
  induction xs with
  | nil =>
      rfl
  | cons x xs ih =>
      simp [ih]

@[simp] theorem value_optionMapM
    (f : α → Checked β)
    (x : Option α) :
    (x.mapM f).value = x.map fun a => (f a).value := by
  cases x with
  | none =>
      rfl
  | some a =>
      rfl

@[simp] theorem errors_optionMapM
    (f : α → Checked β)
    (x : Option α) :
    (x.mapM f).errors = x.toList.flatMap fun a => (f a).errors := by
  cases x with
  | none =>
      rfl
  | some a =>
      have hmap : (some a).mapM f = some <$> f a := rfl
      rw [hmap, errors_map]
      simp

end Checked

section Fresh

variable {κ β : Type} [BEq κ] [LawfulBEq κ]

/-- Keys that are pairwise distinct and not among those seen before. -/
structure Fresh
    (seen : List (κ × β))
    (keys : List κ) : Prop where
  unseen : ∀ key ∈ keys, seen.lookup key = none
  nodup : keys.Nodup

theorem fresh_nil
    (seen : List (κ × β)) :
    Fresh seen [] :=
  ⟨by simp, List.nodup_nil⟩

theorem lookup_eq_none_iff_notMem
    (seen : List (κ × β))
    (key : κ) :
    seen.lookup key = none ↔ key ∉ seen.map Prod.fst := by
  rw [List.lookup_eq_none_iff]
  constructor
  · intro h hmem
    obtain ⟨entry, hentry, rfl⟩ := List.mem_map.mp hmem
    simpa using h entry hentry
  · intro h entry hentry
    have hne : key ≠ entry.1 := by
      rintro rfl
      exact h (List.mem_map_of_mem hentry)
    simpa using hne

omit [LawfulBEq κ] in
/-- A key is fresh together with keys that are fresh after it; `seen'` are the keys seen then. -/
theorem Fresh.cons
    {seen seen' : List (κ × β)}
    {key : κ}
    {keys : List κ}
    (hkey : seen.lookup key = none)
    (hseen' : ∀ k, seen'.lookup k = none → seen.lookup k = none ∧ k ≠ key)
    (hkeys : Fresh seen' keys) :
    Fresh seen (key :: keys) := by
  refine ⟨?_, ?_⟩
  · intro k hk
    rcases List.mem_cons.mp hk with rfl | hk
    · exact hkey
    · exact (hseen' k (hkeys.unseen k hk)).1
  · refine List.nodup_cons.mpr ⟨?_, hkeys.nodup⟩
    intro hmem
    exact (hseen' key (hkeys.unseen key hmem)).2 rfl

theorem lookup_append_singleton_eq_none
    {seen : List (κ × β)}
    {key k : κ}
    {b : β}
    (h : (seen ++ [(key, b)]).lookup k = none) :
    seen.lookup k = none ∧ k ≠ key := by
  rw [lookup_eq_none_iff_notMem] at h ⊢
  simpa using h

theorem lookup_cons_eq_none
    {seen : List (κ × β)}
    {key k : κ}
    {b : β}
    (h : ((key, b) :: seen).lookup k = none) :
    seen.lookup k = none ∧ k ≠ key := by
  rw [lookup_eq_none_iff_notMem] at h ⊢
  simp only [List.map_cons, List.mem_cons, not_or] at h
  exact ⟨h.2, h.1⟩

/-- Keys that are fresh after a key was added at the end are fresh together with it. -/
theorem Fresh.of_append
    {seen : List (κ × β)}
    {key : κ}
    {b : β}
    {keys : List κ}
    (hkey : seen.lookup key = none)
    (hkeys : Fresh (seen ++ [(key, b)]) keys) :
    Fresh seen (key :: keys) :=
  Fresh.cons hkey (fun _ => lookup_append_singleton_eq_none) hkeys

/-- Keys that are fresh after a key was added in front are fresh together with it. -/
theorem Fresh.of_cons
    {seen : List (κ × β)}
    {key : κ}
    {b : β}
    {keys : List κ}
    (hkey : seen.lookup key = none)
    (hkeys : Fresh ((key, b) :: seen) keys) :
    Fresh seen (key :: keys) :=
  Fresh.cons hkey (fun _ => lookup_cons_eq_none) hkeys

/-- What comes after a fresh key is fresh when the key has been added. -/
theorem Fresh.tail
    {seen : List (κ × β)}
    {key : κ}
    {keys : List κ}
    (h : Fresh seen (key :: keys))
    (b : β) :
    Fresh (seen ++ [(key, b)]) keys := by
  obtain ⟨hnotMem, hnodup⟩ := List.nodup_cons.mp h.nodup
  refine ⟨?_, hnodup⟩
  intro k hk
  have hseen := h.unseen k (List.mem_cons_of_mem key hk)
  have hne : k ≠ key := by
    rintro rfl
    exact hnotMem hk
  rw [lookup_eq_none_iff_notMem] at hseen ⊢
  simp [hseen, hne]

end Fresh

/-- One name is reported exactly when it was seen before. -/
theorem repeatedNames_singleton_eq_nil
    {what : String}
    {seen : Seen}
    {name : Located String}
    (h : repeatedNames what seen [name] = []) :
    seen.lookup name.value = none := by
  simp only [repeatedNames, Seen.place?] at h
  split at h
  · simp at h
  · assumption

end Schemata
