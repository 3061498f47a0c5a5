import Schemata.Proofs.Version.Order

/-!
# Which package answers a request

Among distinct identities, a request has at most one best answer: the package
that is accepted and, if others are as well, whose version is greater than all
of theirs, where the request gives a range.  The best answer is what `select`
finds.  It does not depend on the order of the packages, though `select` tries
them in their order and decides between equals by it.

**Results.** `select_eq_found_iff`, `select_eq_missing_iff`.
-/

namespace Schemata

theorem Identity.eq_of_parts
    {x y : Identity}
    (hname : x.name = y.name)
    (hversion : x.version = y.version) :
    x = y := by
  obtain ⟨nameX, versionX⟩ := x
  obtain ⟨nameY, versionY⟩ := y
  rw [Identity.mk.injEq]
  exact ⟨hname, hversion⟩

namespace Request

/-- The package at a position is accepted, and it is the only one that is, or the request has a
range and all others that are accepted have lower versions. -/
def IsBest
    (request : Request)
    (installed : List Identity)
    (index : Nat) : Prop :=
  ∃ x, installed[index]? = some x ∧ request.accepts x = true ∧
    ∀ j y, installed[j]? = some y → request.accepts y = true →
      j = index ∨
        request.range.isSome = true ∧ compareVersions y.version x.version = .lt

section Candidates

variable (request : Request)
variable (installed : List Identity)

theorem mem_candidates
    {c : Nat × Identity} :
    c ∈ request.candidates installed ↔
      installed[c.1]? = some c.2 ∧ request.accepts c.2 = true := by
  obtain ⟨index, identity⟩ := c
  simp [candidates, List.mem_zipIdx_iff_getElem?]

theorem nodup_candidates :
    ((request.candidates installed).map Prod.fst).Nodup := by
  have hsublist : List.Sublist ((request.candidates installed).map Prod.fst)
      (installed.zipIdx.map Prod.snd) := by
    rw [candidates, List.map_map]
    exact List.filter_sublist.map Prod.snd
  rw [List.zipIdx_map_snd] at hsublist
  exact hsublist.nodup List.nodup_range'

end Candidates

/-- The greatest candidate is one of the candidates, and none of them is greater. -/
theorem greatest_spec
    (best : Nat × Identity)
    (rest : List (Nat × Identity)) :
    greatest best rest ∈ best :: rest ∧
      ∀ c ∈ best :: rest,
        (compareVersions c.2.version (greatest best rest).2.version).isLE = true := by
  induction rest generalizing best with
  | nil =>
      refine ⟨List.mem_singleton_self best, fun c hc => ?_⟩
      rw [List.mem_singleton.mp hc]
      exact Std.ReflCmp.isLE_rfl
  | cons next rest ih =>
      rw [greatest]
      split
      · rename_i hgt
        obtain ⟨hmem, hmax⟩ := ih best
        have hnext : (compareVersions next.2.version best.2.version).isLE = true := by
          rw [Std.OrientedCmp.lt_of_gt hgt]
          rfl
        refine ⟨?_, fun c hc => ?_⟩
        · rcases List.mem_cons.mp hmem with heq | hmem
          · rw [heq]
            exact List.mem_cons_self
          · exact List.mem_cons_of_mem _ (List.mem_cons_of_mem _ hmem)
        · rcases List.mem_cons.mp hc with rfl | hc
          · exact hmax c List.mem_cons_self
          · rcases List.mem_cons.mp hc with rfl | hc
            · exact Std.TransCmp.isLE_trans hnext (hmax best List.mem_cons_self)
            · exact hmax c (List.mem_cons_of_mem best hc)
      · rename_i hgt
        obtain ⟨hmem, hmax⟩ := ih next
        have hbest : (compareVersions best.2.version next.2.version).isLE = true := by
          cases horder : compareVersions best.2.version next.2.version with
          | gt =>
              exact absurd horder hgt
          | lt | eq =>
              rfl
        refine ⟨List.mem_cons_of_mem best hmem, fun c hc => ?_⟩
        rcases List.mem_cons.mp hc with rfl | hc
        · exact Std.TransCmp.isLE_trans hbest (hmax next List.mem_cons_self)
        · exact hmax c hc

section Select

variable {request : Request}
variable {installed : List Identity}

theorem select_eq_missing_iff :
    request.select installed = .missing ↔ ∀ x ∈ installed, request.accepts x = false := by
  have hcandidates :
      request.candidates installed = [] ↔ ∀ x ∈ installed, request.accepts x = false := by
    rw [List.eq_nil_iff_forall_not_mem]
    constructor
    · intro h x hx
      obtain ⟨index, hindex⟩ := List.mem_iff_getElem?.mp hx
      by_contra haccepts
      exact h (index, x) ((mem_candidates request installed).mpr
        ⟨hindex, Bool.eq_true_of_not_eq_false haccepts⟩)
    · intro h c hc
      obtain ⟨hindex, haccepts⟩ := (mem_candidates request installed).mp hc
      rw [h c.2 (List.mem_of_getElem? hindex)] at haccepts
      cases haccepts
  rw [← hcandidates]
  unfold select
  cases request.candidates installed with
  | nil =>
      simp
  | cons first rest =>
      cases rest with
      | nil =>
          simp
      | cons second rest =>
          cases request.range with
          | none =>
              simp
          | some range =>
              simp

/-- Accepted packages at different positions have different versions. -/
theorem version_ne_of_accepts
    (hdistinct : installed.Nodup)
    {i j : Nat}
    {x y : Identity}
    (hx : installed[i]? = some x)
    (hy : installed[j]? = some y)
    (hacceptsX : request.accepts x = true)
    (hacceptsY : request.accepts y = true)
    (hne : i ≠ j) :
    x.version ≠ y.version := by
  intro hversion
  have hname : x.name = y.name := by
    simp only [accepts, Bool.and_eq_true, beq_iff_eq] at hacceptsX hacceptsY
    rw [← hacceptsX.1, hacceptsY.1]
  refine hne ((List.getElem?_inj (List.getElem?_eq_some_iff.mp hx).1 hdistinct).mp ?_)
  rw [hx, hy, Identity.eq_of_parts hname hversion]

theorem IsBest.unique
    {i j : Nat}
    (hi : request.IsBest installed i)
    (hj : request.IsBest installed j) :
    i = j := by
  obtain ⟨x, hx, hacceptsX, hbestX⟩ := hi
  obtain ⟨y, hy, hacceptsY, hbestY⟩ := hj
  rcases hbestX j y hy hacceptsY with rfl | ⟨-, hlower⟩
  · rfl
  · rcases hbestY i x hx hacceptsX with rfl | ⟨-, hlower'⟩
    · rfl
    · exact absurd hlower' (Std.OrientedCmp.not_lt_of_lt hlower)

/-- The greatest of several candidates is the best answer to a request with a range. -/
theorem isBest_greatest
    (hdistinct : installed.Nodup)
    (hrange : request.range.isSome = true)
    {first : Nat × Identity}
    {rest : List (Nat × Identity)}
    (hcandidates : request.candidates installed = first :: rest) :
    request.IsBest installed (greatest first rest).1 := by
  obtain ⟨hmem, hmax⟩ := greatest_spec first rest
  rw [← hcandidates] at hmem hmax
  obtain ⟨hindex, haccepts⟩ := (mem_candidates request installed).mp hmem
  refine ⟨(greatest first rest).2, hindex, haccepts, fun j y hy hacceptsY => ?_⟩
  by_cases hj : j = (greatest first rest).1
  · exact Or.inl hj
  · have hle := hmax (j, y) ((mem_candidates request installed).mpr ⟨hy, hacceptsY⟩)
    have hne := version_ne_of_accepts hdistinct hy hindex hacceptsY haccepts hj
    refine Or.inr ⟨hrange, ?_⟩
    cases horder : compareVersions y.version (greatest first rest).2.version with
    | lt =>
        rfl
    | eq =>
        exact absurd (Std.LawfulEqCmp.eq_of_compare horder) hne
    | gt =>
        rw [horder] at hle
        cases hle

/-- Among distinct packages, the best answer is found. -/
theorem select_eq_found_iff
    (hdistinct : installed.Nodup)
    (index : Nat) :
    request.select installed = .found index ↔ request.IsBest installed index := by
  have hmem := @mem_candidates request installed
  have hnodup := nodup_candidates request installed
  unfold select
  cases hcandidates : request.candidates installed with
  | nil =>
      rw [hcandidates] at hmem
      refine ⟨fun h => (by cases h), ?_⟩
      rintro ⟨x, hx, haccepts, -⟩
      cases (@hmem (index, x)).mpr ⟨hx, haccepts⟩
  | cons first rest =>
      rw [hcandidates] at hmem hnodup
      have hfirst := hmem.mp List.mem_cons_self
      cases rest with
      | nil =>
          have honly : request.IsBest installed first.1 := by
            refine ⟨first.2, hfirst.1, hfirst.2, fun j y hy haccepts => Or.inl ?_⟩
            have hsame := List.mem_singleton.mp ((@hmem (j, y)).mpr ⟨hy, haccepts⟩)
            exact congrArg Prod.fst hsame
          simp only [Selection.found.injEq]
          exact ⟨fun h => h ▸ honly, honly.unique⟩
      | cons second rest =>
          cases hrange : request.range with
          | some range =>
              have hbest := isBest_greatest hdistinct (by rw [hrange]; rfl) hcandidates
              simp only [Selection.found.injEq]
              exact ⟨fun h => h ▸ hbest, hbest.unique⟩
          | none =>
              -- Two packages are accepted, so neither is the best one.
              refine ⟨fun h => (by cases h), ?_⟩
              rintro ⟨x, hx, haccepts, hbest⟩
              have hsecond := hmem.mp (List.mem_cons_of_mem first List.mem_cons_self)
              simp only [hrange, Option.isSome_none, Bool.false_eq_true, false_and,
                or_false] at hbest
              have hone := hbest first.1 first.2 hfirst.1 hfirst.2
              have htwo := hbest second.1 second.2 hsecond.1 hsecond.2
              simp [hone, htwo] at hnodup

end Select

end Request
end Schemata
