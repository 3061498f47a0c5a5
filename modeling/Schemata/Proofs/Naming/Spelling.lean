import Schemata.Naming.Reserved
import Mathlib.Data.List.Nodup
import Mathlib.Data.List.Perm.Subperm
import Mathlib.Logic.Function.Iterate
import Mathlib.Tactic

/-!
# Spellings of siblings

Siblings are spelled one after the other.  A name that clashes is marked until
it clashes no more: it must not be the spelling of an earlier sibling, and once
it is marked it must not be the natural spelling of any sibling, an earlier or a
later one.  `Settles` is this loop without a bound on its rounds.

Every mark makes a name longer, so the marked forms of a name are all different
and one of them is free.  A mark is an underscore, which no reserved word has, so
that no marked name is reserved.

**Results.**
* `settles_distinguish`: the loop ends within its bound.
* `SettlesAll.candidate_mem`: a natural spelling that was met is in use.
* `spellAll_apart`: what the spellings of siblings are.
-/

namespace Schemata
namespace Naming
namespace Language

section Marks

theorem length_mark
    (language : Language)
    (name : String) :
    (language.mark.apply name).length = name.length + 1 := by
  cases language with
  | csharp | javascript =>
      rw [mark, Mark.apply, String.length_append, Nat.add_comm]
      rfl
  | swift =>
      rw [mark, Mark.apply, String.length_append]
      rfl

theorem length_marks
    (language : Language)
    (n : Nat)
    (name : String) :
    (language.mark.apply^[n] name).length = name.length + n := by
  induction n with
  | zero =>
      rfl
  | succ n ih =>
      rw [Function.iterate_succ_apply', length_mark, ih, Nat.add_assoc]

/-- The marked forms of a name are all different. -/
theorem marks_injective
    (language : Language)
    (name : String) :
    Function.Injective fun n => language.mark.apply^[n] name := by
  intro m n heq
  have hlength := congrArg String.length heq
  simp only [length_marks] at hlength
  omega

theorem mark_injective
    (language : Language) :
    Function.Injective language.mark.apply := by
  intro a b h
  have hlist := congrArg String.toList h
  cases language <;> simpa [mark, Mark.apply, String.toList_append, String.toList_inj] using hlist

theorem underscore_mem_mark
    (language : Language)
    (name : String) :
    '_' ∈ (language.mark.apply name).toList := by
  cases language <;> simp [mark, Mark.apply]

theorem underscore_not_mem_reserved
    (language : Language)
    {word : String}
    (h : word ∈ language.reserved) :
    '_' ∉ word.toList := by
  have hall : (language.reserved.all fun word => !word.toList.contains '_') = true := by
    cases language <;> decide +kernel
  simpa using List.all_eq_true.mp hall word h

/-- No reserved word is a marked name. -/
theorem isReserved_mark
    (language : Language)
    (name : String) :
    language.isReserved (language.mark.apply name) = false := by
  rw [isReserved, List.contains_eq_mem, decide_eq_false_iff_not]
  exact fun hmem => underscore_not_mem_reserved language hmem (underscore_mem_mark language name)

theorem isReserved_marks
    (language : Language)
    {name : String}
    (h : language.isReserved name = false)
    (n : Nat) :
    language.isReserved (language.mark.apply^[n] name) = false := by
  cases n with
  | zero =>
      exact h
  | succ n =>
      rw [Function.iterate_succ_apply']
      exact isReserved_mark language _

theorem isReserved_spell
    (language : Language)
    (name : String) :
    language.isReserved (language.spell name) = false := by
  rw [spell]
  split
  · exact isReserved_mark language name
  · rename_i hfree
    exact Bool.eq_false_iff.mpr hfree

/-- Natural spellings are not reserved. -/
theorem isReserved_natural
    (language : Language)
    (casing : Casing)
    (name : String) :
    language.isReserved (language.natural casing name) = false :=
  isReserved_spell language _

end Marks

section Loop

/-- A spelling that cannot be kept: it is taken, or it is marked and is the natural spelling of a
sibling. -/
def Clashes
    (natural taken : List String)
    (candidate name : String) : Prop :=
  name ∈ taken ∨ name ≠ candidate ∧ name ∈ natural

/-- Marking a name for as long as it clashes ends in a spelling. -/
inductive Settles
    (language : Language)
    (natural taken : List String)
    (candidate : String) :
    String → String → Prop
  | keep
      {name : String}
      (hfree : ¬ Clashes natural taken candidate name) :
      Settles language natural taken candidate name name
  | mark
      {name ident : String}
      (hclash : Clashes natural taken candidate name)
      (hrest : Settles language natural taken candidate (language.mark.apply name) ident) :
      Settles language natural taken candidate name ident

variable {language : Language}
variable {natural taken : List String}
variable {candidate name ident : String}

theorem Settles.not_clashes
    (h : Settles language natural taken candidate name ident) :
    ¬ Clashes natural taken candidate ident := by
  induction h with
  | keep hfree =>
      exact hfree
  | mark _ _ ih =>
      exact ih

theorem Settles.exists_marks
    (h : Settles language natural taken candidate name ident) :
    ∃ n, ident = language.mark.apply^[n] name := by
  induction h with
  | keep =>
      exact ⟨0, rfl⟩
  | mark _ _ ih =>
      obtain ⟨n, rfl⟩ := ih
      exact ⟨n + 1, rfl⟩

/-- Only what is taken matters, and not its order. -/
theorem Settles.congr
    {others : List String}
    (hsame : ∀ x, x ∈ taken ↔ x ∈ others)
    (h : Settles language natural taken candidate name ident) :
    Settles language natural others candidate name ident := by
  induction h with
  | keep hfree =>
      refine .keep ?_
      rwa [Clashes, ← hsame]
  | mark hclash _ ih =>
      refine .mark ?_ ih
      rwa [Clashes, ← hsame]

/-- A natural spelling is taken after its turn: it is kept, or it was taken before. -/
theorem Settles.candidate_mem
    (h : Settles language natural taken candidate candidate ident) :
    candidate ∈ ident :: taken := by
  cases h with
  | keep =>
      exact List.mem_cons_self
  | mark hclash _ =>
      rcases hclash with htaken | ⟨hne, -⟩
      · exact List.mem_cons_of_mem _ htaken
      · exact absurd rfl hne

/-- A spelling is the natural one, or not that of any sibling. -/
theorem Settles.eq_or_notMem
    (h : Settles language natural taken candidate name ident) :
    ident = candidate ∨ ident ∉ natural := by
  by_cases heq : ident = candidate
  · exact Or.inl heq
  · exact Or.inr fun hmem => h.not_clashes (Or.inr ⟨heq, hmem⟩)

/-- Among more marked forms than there are names to avoid, one is free. -/
theorem exists_free
    (language : Language)
    (natural taken : List String)
    (candidate name : String) :
    ∃ n < taken.length + natural.length + 1,
      ¬ Clashes natural taken candidate (language.mark.apply^[n] name) := by
  by_contra hall
  push Not at hall
  have hnodup : ((List.range (taken.length + natural.length + 1)).map
      fun n => language.mark.apply^[n] name).Nodup :=
    List.nodup_range.map (marks_injective language name)
  have hsubset : (List.range (taken.length + natural.length + 1)).map
      (fun n => language.mark.apply^[n] name) ⊆ taken ++ natural := by
    intro ident hident
    obtain ⟨n, hn, rfl⟩ := List.mem_map.mp hident
    rcases hall n (List.mem_range.mp hn) with htaken | ⟨-, hnatural⟩
    · exact List.mem_append_left natural htaken
    · exact List.mem_append_right taken hnatural
  have hlength := (List.subperm_of_subset hnodup hsubset).length_le
  rw [List.length_map, List.length_range, List.length_append] at hlength
  omega

theorem clashes_iff :
    (taken.contains name || (name != candidate && natural.contains name)) = true ↔
      Clashes natural taken candidate name := by
  simp [Clashes]

/-- The loop ends before its bound, if a marked form within the bound is free. -/
theorem settles_of_exists_free
    {fuel : Nat}
    (h : ∃ n < fuel, ¬ Clashes natural taken candidate (language.mark.apply^[n] name)) :
    Settles language natural taken candidate name
      (language.distinguish natural taken candidate fuel name) := by
  induction fuel generalizing name with
  | zero =>
      obtain ⟨n, hn, -⟩ := h
      exact absurd hn (Nat.not_lt_zero n)
  | succ fuel ih =>
      rw [distinguish]
      split
      · rename_i hclash
        rw [clashes_iff] at hclash
        refine .mark hclash (ih ?_)
        obtain ⟨n, hn, hfree⟩ := h
        cases n with
        | zero =>
            exact absurd hclash hfree
        | succ n =>
            exact ⟨n, Nat.lt_of_succ_lt_succ hn, hfree⟩
      · rename_i hfree
        rw [clashes_iff] at hfree
        exact .keep hfree

theorem settles_distinguish
    (language : Language)
    (natural taken : List String)
    (candidate name : String) :
    Settles language natural taken candidate name
      (language.distinguish natural taken candidate (taken.length + natural.length + 1) name) :=
  settles_of_exists_free (exists_free language natural taken candidate name)

end Loop

section Siblings

/-- The spellings of names whose turn comes one after the other. -/
inductive SettlesAll
    (language : Language)
    (natural : List String) :
    List String → List String → List String → Prop
  | nil
      (taken : List String) :
      SettlesAll language natural taken [] []
  | cons
      {taken candidates idents : List String}
      {candidate ident : String}
      (hfirst : Settles language natural taken candidate candidate ident)
      (hrest : SettlesAll language natural (ident :: taken) candidates idents) :
      SettlesAll language natural taken (candidate :: candidates) (ident :: idents)

variable {language : Language}
variable {natural taken candidates idents : List String}

theorem settlesAll_distinguishAll
    (language : Language)
    (natural taken candidates : List String) :
    SettlesAll language natural taken candidates
      (language.distinguishAll natural taken candidates) := by
  induction candidates generalizing taken with
  | nil =>
      exact .nil taken
  | cons candidate candidates ih =>
      exact .cons (settles_distinguish language natural taken candidate candidate) (ih _)

namespace SettlesAll

theorem length_eq
    (h : SettlesAll language natural taken candidates idents) :
    idents.length = candidates.length := by
  induction h with
  | nil =>
      rfl
  | cons _ _ ih =>
      rw [List.length_cons, List.length_cons, ih]

theorem notMem_taken
    (h : SettlesAll language natural taken candidates idents)
    {ident : String}
    (hident : ident ∈ idents) :
    ident ∉ taken := by
  induction h with
  | nil =>
      cases hident
  | cons hfirst _ ih =>
      rcases List.mem_cons.mp hident with rfl | hmem
      · exact fun htaken => hfirst.not_clashes (Or.inl htaken)
      · exact fun htaken => ih hmem (List.mem_cons_of_mem _ htaken)

theorem nodup
    (h : SettlesAll language natural taken candidates idents) :
    idents.Nodup := by
  induction h with
  | nil =>
      exact List.nodup_nil
  | cons _ hrest ih =>
      exact List.nodup_cons.mpr ⟨fun hmem => hrest.notMem_taken hmem List.mem_cons_self, ih⟩

/-- A natural spelling that was met is in use. -/
theorem candidate_mem
    (h : SettlesAll language natural taken candidates idents)
    {candidate : String}
    (hcandidate : candidate ∈ candidates) :
    candidate ∈ idents ++ taken := by
  induction h with
  | nil =>
      cases hcandidate
  | cons hfirst _ ih =>
      rcases List.mem_cons.mp hcandidate with rfl | hmem
      · have := hfirst.candidate_mem
        simp only [List.mem_cons, List.cons_append, List.mem_append] at this ⊢
        grind
      · have := ih hmem
        simp only [List.mem_cons, List.cons_append, List.mem_append] at this ⊢
        grind

/-- A natural spelling is in use only after it was met. -/
theorem mem_candidates
    (h : SettlesAll language natural taken candidates idents)
    {ident : String}
    (hident : ident ∈ idents)
    (hnatural : ident ∈ natural) :
    ident ∈ candidates := by
  induction h with
  | nil =>
      cases hident
  | cons hfirst _ ih =>
      rcases List.mem_cons.mp hident with rfl | hmem
      · rcases hfirst.eq_or_notMem with rfl | hnot
        · exact List.mem_cons_self
        · exact absurd hnatural hnot
      · exact List.mem_cons_of_mem _ (ih hmem)

/-- The turn of the name at a place, with those before it. -/
theorem turn
    (h : SettlesAll language natural taken candidates idents)
    {i : Nat}
    {candidate : String}
    (hi : candidates[i]? = some candidate) :
    ∃ ident, idents[i]? = some ident ∧
      SettlesAll language natural taken (candidates.take i) (idents.take i) ∧
      Settles language natural (idents.take i ++ taken) candidate candidate ident := by
  induction h generalizing i with
  | nil =>
      simp at hi
  | @cons taken candidates idents first ident hfirst hrest ih =>
      cases i with
      | zero =>
          obtain rfl := Option.some.inj hi
          exact ⟨ident, rfl, .nil taken, hfirst⟩
      | succ i =>
          rw [List.getElem?_cons_succ] at hi
          obtain ⟨found, hfound, hbefore, hsettles⟩ := ih hi
          refine ⟨found, hfound, .cons hfirst hbefore, hsettles.congr fun x => ?_⟩
          simp only [List.take_succ_cons, List.mem_append, List.mem_cons]
          grind

theorem isReserved_of_mem
    (h : SettlesAll language natural taken candidates idents)
    (hfree : ∀ candidate ∈ candidates, language.isReserved candidate = false)
    {ident : String}
    (hident : ident ∈ idents) :
    language.isReserved ident = false := by
  induction h with
  | nil =>
      cases hident
  | cons hfirst _ ih =>
      rw [List.forall_mem_cons] at hfree
      rcases List.mem_cons.mp hident with rfl | hmem
      · obtain ⟨n, rfl⟩ := hfirst.exists_marks
        exact isReserved_marks language hfree.1 n
      · exact ih hfree.2 hmem

end SettlesAll

/-- The spellings of siblings.  They are as many, distinct and not reserved.  The loop ends for each
name, against the spellings before it.  The first name with a natural spelling keeps it; a later one
has it with marks, and then it is the natural spelling of none. -/
structure SpelledApart
    (language : Language)
    (natural idents : List String) : Prop where
  length : idents.length = natural.length
  nodup : idents.Nodup
  free : ∀ ident ∈ idents, language.isReserved ident = false
  settles : ∀ i candidate, natural[i]? = some candidate →
    ∃ ident, idents[i]? = some ident ∧
      Settles language natural (idents.take i) candidate candidate ident
  first : ∀ i candidate, natural[i]? = some candidate → candidate ∉ natural.take i →
    idents[i]? = some candidate
  later : ∀ i candidate, natural[i]? = some candidate → candidate ∈ natural.take i →
    ∃ n, idents[i]? = some (language.mark.apply^[n + 1] candidate) ∧
      language.mark.apply^[n + 1] candidate ∉ natural

theorem SettlesAll.spelledApart
    (h : SettlesAll language natural [] natural idents)
    (hfree : ∀ candidate ∈ natural, language.isReserved candidate = false) :
    SpelledApart language natural idents where
  length := h.length_eq
  nodup := h.nodup
  free := fun _ hident => h.isReserved_of_mem hfree hident
  settles := by
    intro i candidate hi
    obtain ⟨ident, hident, -, hsettles⟩ := h.turn hi
    rw [List.append_nil] at hsettles
    exact ⟨ident, hident, hsettles⟩
  first := by
    intro i candidate hi hnew
    obtain ⟨ident, hident, hbefore, hsettles⟩ := h.turn hi
    rw [List.append_nil] at hsettles
    cases hsettles with
    | keep =>
        exact hident
    | mark hclash _ =>
        rcases hclash with hmem | ⟨hne, -⟩
        · exact absurd (hbefore.mem_candidates hmem (List.mem_of_getElem? hi)) hnew
        · exact absurd rfl hne
  later := by
    intro i candidate hi hold
    obtain ⟨ident, hident, hbefore, hsettles⟩ := h.turn hi
    have hne : ident ≠ candidate := by
      rintro rfl
      exact hsettles.not_clashes (Or.inl (hbefore.candidate_mem hold))
    have hnot : ident ∉ natural := hsettles.eq_or_notMem.resolve_left hne
    obtain ⟨n, rfl⟩ := hsettles.exists_marks
    cases n with
    | zero =>
        exact absurd rfl hne
    | succ n =>
        exact ⟨n, hident, hnot⟩

theorem two_le_count_iff
    {natural : List String}
    {word : String} :
    2 ≤ natural.count word ↔ ∃ i, natural[i]? = some word ∧ word ∈ natural.take i := by
  rw [← List.duplicate_iff_two_le_count, List.duplicate_iff_exists_distinct_get]
  constructor
  · rintro ⟨i, j, hlt, hi, hj⟩
    exact ⟨j, List.getElem?_eq_some_iff.mpr ⟨j.2, hj.symm⟩,
      List.mem_take_iff_getElem.mpr ⟨i, by omega, hi.symm⟩⟩
  · rintro ⟨j, hj, hmem⟩
    obtain ⟨hj, hword⟩ := List.getElem?_eq_some_iff.mp hj
    obtain ⟨i, hi, hword'⟩ := List.mem_take_iff_getElem.mp hmem
    exact ⟨⟨i, by omega⟩, ⟨j, hj⟩, Fin.mk_lt_mk.mpr (by omega), hword'.symm, hword.symm⟩

/-- A word is in use with one mark exactly when two siblings are spelled like it, if its marked form
is no natural spelling. -/
theorem SpelledApart.mark_mem_iff
    (h : SpelledApart language natural idents)
    {word : String}
    (hword : '_' ∉ word.toList)
    (hmark : language.mark.apply word ∉ natural) :
    language.mark.apply word ∈ idents ↔ 2 ≤ natural.count word := by
  rw [two_le_count_iff]
  constructor
  · intro hmem
    obtain ⟨i, hi, hat⟩ := List.getElem_of_mem hmem
    have hat : idents[i]? = some (language.mark.apply word) :=
      List.getElem?_eq_some_iff.mpr ⟨hi, hat⟩
    rw [h.length] at hi
    have hcandidate := List.getElem?_eq_getElem hi
    by_cases hold : natural[i] ∈ natural.take i
    · obtain ⟨n, hlater, -⟩ := h.later i _ hcandidate hold
      have hmarks := Option.some.inj (hlater.symm.trans hat)
      rw [Function.iterate_succ_apply'] at hmarks
      have hbase := language.mark_injective hmarks
      cases n with
      | zero =>
          rw [Function.iterate_zero_apply] at hbase
          rw [hbase] at hold hcandidate
          exact ⟨i, hcandidate, hold⟩
      | succ n =>
          rw [Function.iterate_succ_apply'] at hbase
          exact absurd (hbase ▸ language.underscore_mem_mark _) hword
    · have hkept := Option.some.inj ((h.first i _ hcandidate hold).symm.trans hat)
      exact absurd (hkept ▸ List.getElem_mem hi) hmark
  · rintro ⟨i, hi, hold⟩
    obtain ⟨n, hlater, hnot⟩ := h.later i word hi hold
    obtain ⟨ident, hat, hsettles⟩ := h.settles i word hi
    cases hsettles with
    | keep =>
        rw [Option.some.inj (hlater.symm.trans hat)] at hnot
        exact absurd (List.mem_of_getElem? hi) hnot
    | mark _ hrest =>
        -- the first mark is free, or it is in use already
        cases hrest with
        | keep =>
            exact List.mem_of_getElem? hat
        | mark hclash _ =>
            rcases hclash with htaken | ⟨-, hnatural⟩
            · exact List.mem_of_mem_take htaken
            · exact absurd hnatural hmark

theorem length_spellAll
    (language : Language)
    (casing : Casing)
    (names : List String) :
    (language.spellAll casing names).length = names.length := by
  rw [spellAll, (settlesAll_distinguishAll language _ [] _).length_eq, List.length_map]

/-- Sibling names are spelled apart, in every casing and language. -/
theorem spellAll_apart
    (language : Language)
    (casing : Casing)
    (names : List String) :
    SpelledApart language (names.map (language.natural casing))
      (language.spellAll casing names) := by
  refine (settlesAll_distinguishAll language _ [] _).spelledApart fun candidate hmem => ?_
  obtain ⟨name, -, rfl⟩ := List.mem_map.mp hmem
  exact isReserved_natural language casing name

/-- Marking passes over the natural spelling of a later sibling. -/
example :
    swift.distinguishAll ["x", "x", "x_"] [] ["x", "x", "x_"] = ["x", "x__", "x_"] := by
  decide

end Siblings

end Language
end Naming
end Schemata
