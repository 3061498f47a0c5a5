import Mathlib.Tactic

/-!
# Entries found by key

A lookup stops at the first entry with the key.  Where each key stands once, this
is the only one, so an entry is found exactly if it is there, and the order of the
entries does not matter.

**Results.** `lookup_eq_some_iff_mem`, `lookup_eq_of_perm`.
-/

namespace Schemata

variable {α β : Type}
variable [BEq α]
variable [LawfulBEq α]
variable {entries : List (α × β)}

/-- With distinct keys, what is found under a key is what stands there. -/
theorem lookup_eq_some_iff_mem
    (hdistinct : (entries.map Prod.fst).Nodup)
    {key : α}
    {b : β} :
    entries.lookup key = some b ↔ (key, b) ∈ entries := by
  constructor
  · intro hlookup
    obtain ⟨before, after, rfl, -⟩ := List.lookup_eq_some_iff.mp hlookup
    exact List.mem_append_right before List.mem_cons_self
  · intro hmem
    obtain ⟨before, after, rfl⟩ := List.append_of_mem hmem
    rw [List.map_append, List.map_cons, List.nodup_append] at hdistinct
    refine List.lookup_eq_some_iff.mpr ⟨before, after, rfl, fun entry hentry => ?_⟩
    have hne := hdistinct.2.2 entry.1 (List.mem_map_of_mem hentry) key List.mem_cons_self
    exact bne_iff_ne.mpr hne.symm

/-- With distinct keys, the order of the entries does not matter. -/
theorem lookup_eq_of_perm
    {entries' : List (α × β)}
    (hperm : entries.Perm entries')
    (hdistinct : (entries.map Prod.fst).Nodup)
    (key : α) :
    entries.lookup key = entries'.lookup key := by
  have hdistinct' := (hperm.map Prod.fst).nodup_iff.mp hdistinct
  refine Option.ext fun b => ?_
  rw [lookup_eq_some_iff_mem hdistinct, lookup_eq_some_iff_mem hdistinct', hperm.mem_iff]

end Schemata
