import Mathlib.Tactic

/-!
# Computations that may fail

A computation in steps succeeds when each step does, on what the steps before it
gave.

**Results.** `bind_eq_ok`, `bind_eq_error`, `mapM_eq_ok_iff`.
-/

namespace Schemata

/-- A computation succeeds when its first part and then its second part do. -/
theorem bind_eq_ok
    {ε α β : Type}
    {x : Except ε α}
    {f : α → Except ε β}
    {b : β} :
    (x >>= f) = .ok b ↔ ∃ a, x = .ok a ∧ f a = .ok b := by
  cases x with
  | error e =>
      simp [bind, Except.bind]
  | ok a =>
      simp [bind, Except.bind]

theorem ok_bind
    {ε α β : Type}
    (a : α)
    (f : α → Except ε β) :
    (Except.ok a >>= f) = f a :=
  rfl

theorem map_eq_ok
    {ε α β : Type}
    {x : Except ε α}
    {f : α → β}
    {b : β} :
    x.map f = .ok b ↔ ∃ a, x = .ok a ∧ f a = b := by
  cases x with
  | error e =>
      simp [Except.map]
  | ok a =>
      simp [Except.map]

/-- All elements are computed when each of them is. -/
theorem mapM_eq_ok_iff
    {ε α β : Type}
    {f : α → Except ε β}
    {xs : List α}
    {ys : List β} :
    xs.mapM f = .ok ys ↔ List.Forall₂ (fun x y => f x = .ok y) xs ys := by
  induction xs generalizing ys with
  | nil =>
      cases ys with
      | nil =>
          exact iff_of_true rfl .nil
      | cons y ys =>
          exact iff_of_false (fun h => (by cases h)) (fun h => (by cases h))
  | cons x xs ih =>
      rw [List.mapM_cons, bind_eq_ok]
      constructor
      · rintro ⟨y, hy, h⟩
        obtain ⟨rest, hrest, h⟩ := bind_eq_ok.mp h
        cases h
        exact .cons hy (ih.mp hrest)
      · rintro (_ | ⟨hy, hrest⟩)
        exact ⟨_, hy, bind_eq_ok.mpr ⟨_, ih.mpr hrest, rfl⟩⟩

/-- What is computed comes from an element. -/
theorem exists_of_mem_mapM
    {ε α β : Type}
    {f : α → Except ε β}
    {xs : List α}
    {ys : List β}
    (h : xs.mapM f = .ok ys)
    {y : β}
    (hy : y ∈ ys) :
    ∃ x ∈ xs, f x = .ok y := by
  have hall := mapM_eq_ok_iff.mp h
  clear h
  induction hall with
  | nil =>
      cases hy
  | cons hfirst _ ih =>
      rcases List.mem_cons.mp hy with rfl | hy
      · exact ⟨_, List.mem_cons_self, hfirst⟩
      · obtain ⟨x, hx, heq⟩ := ih hy
        exact ⟨x, List.mem_cons_of_mem _ hx, heq⟩

/-- Each element is computed. -/
theorem exists_ok_of_mapM
    {ε α β : Type}
    {f : α → Except ε β}
    {xs : List α}
    {ys : List β}
    (h : xs.mapM f = .ok ys)
    {x : α}
    (hx : x ∈ xs) :
    ∃ y ∈ ys, f x = .ok y := by
  have hall := mapM_eq_ok_iff.mp h
  clear h
  induction hall with
  | nil =>
      cases hx
  | cons hfirst _ ih =>
      rcases List.mem_cons.mp hx with rfl | hx
      · exact ⟨_, List.mem_cons_self, hfirst⟩
      · obtain ⟨y, hy, heq⟩ := ih hx
        exact ⟨y, List.mem_cons_of_mem _ hy, heq⟩

/-- A failure is that of an element. -/
theorem exists_error_of_mapM
    {ε α β : Type}
    {f : α → Except ε β}
    {xs : List α}
    {e : ε}
    (h : xs.mapM f = .error e) :
    ∃ x ∈ xs, f x = .error e := by
  induction xs with
  | nil =>
      cases h
  | cons x xs ih =>
      rw [List.mapM_cons] at h
      cases hfirst : f x with
      | error e' =>
          rw [hfirst] at h
          cases h
          exact ⟨x, List.mem_cons_self, hfirst⟩
      | ok y =>
          rw [hfirst, ok_bind] at h
          cases hrest : xs.mapM f with
          | error e' =>
              rw [hrest] at h
              cases h
              obtain ⟨x', hx', heq⟩ := ih hrest
              exact ⟨x', List.mem_cons_of_mem x hx', heq⟩
          | ok ys =>
              rw [hrest] at h
              cases h

end Schemata
