import Schemata.Proofs.Package.Selection
import Mathlib.Tactic

/-!
# The package that is selected

A request without a range is answered by its only match, and a request with a
range by the match of the greatest version.  Of matches with equal versions the
last one is taken.  Distinct identities of one name have different versions, so
among them the order of the list decides nothing: it moves the position of the
answer, and the identity at that position stays the same.

**Results.**
* `select_of_range_none`, `select_of_range`: the answer without a range and with one.
* `identity?_select_eq_some_iff`: the selected identity in terms that know no order.
* `select_maximum`: all of this for every request and every list.
-/

namespace Schemata

namespace Selection

/-- The identity that a selection points at. -/
def identity?
    (installed : List Identity) :
    Selection → Option Identity
  | found index => installed[index]?
  | missing => none
  | ambiguous _ => none

/-- The answer where no match is better than another. -/
def ofIndices : List Nat → Selection
  | [] => missing
  | [index] => found index
  | indices => ambiguous indices

theorem ofIndices_eq_found_iff
    {indices : List Nat}
    {index : Nat} :
    ofIndices indices = found index ↔ indices = [index] := by
  match indices with
  | [] => simp [ofIndices]
  | [_] => simp [ofIndices]
  | _ :: _ :: _ => simp [ofIndices]

theorem ofIndices_eq_ambiguous_iff
    {as bs : List Nat} :
    ofIndices as = ambiguous bs ↔ as = bs ∧ 2 ≤ bs.length := by
  match as with
  | [] =>
      simp only [ofIndices, reduceCtorEq, false_iff, not_and]
      rintro rfl
      simp
  | [_] =>
      simp only [ofIndices, reduceCtorEq, false_iff, not_and]
      rintro rfl
      simp
  | _ :: _ :: _ =>
      simp only [ofIndices, ambiguous.injEq, iff_self_and]
      rintro rfl
      simp

end Selection

namespace Request

section Matches

/-- The identity has the requested name and, if a range is requested, a version within it. -/
def Matches
    (request : Request)
    (identity : Identity) : Prop :=
  identity.name = request.name ∧
    ∀ range, request.range = some range →
      ∃ version, identity.version = some version ∧ range.accepts version = true

/-- A match stands at the position. -/
def MatchesAt
    (request : Request)
    (installed : List Identity)
    (index : Nat) : Prop :=
  ∃ x, installed[index]? = some x ∧ request.Matches x

/-- All positions of matches, in their order. -/
structure ListsMatches
    (request : Request)
    (installed : List Identity)
    (indices : List Nat) : Prop where
  ascending : indices.Pairwise (· < ·)
  mem_iff : ∀ index, index ∈ indices ↔ request.MatchesAt installed index

/-- The version at the position is at least that of every match, and greater than those of matches
behind it. -/
def IsGreatest
    (request : Request)
    (installed : List Identity)
    (index : Nat) : Prop :=
  ∃ x version, installed[index]? = some x ∧ request.Matches x ∧ x.version = some version ∧
    ∀ j y, installed[j]? = some y → request.Matches y →
      ∃ other, y.version = some other ∧ (other.cmp version).isLE = true ∧
        (index < j → other.cmp version = .lt)

variable {request : Request}
variable {installed : List Identity}

theorem accepts_iff
    {x : Identity} :
    request.accepts x = true ↔ request.Matches x := by
  rw [accepts, Matches, Bool.and_eq_true, beq_iff_eq, eq_comm]
  refine and_congr_right fun _ => ?_
  cases request.range with
  | none =>
      simp
  | some range =>
      cases x.version with
      | none => simp
      | some version => simp

theorem exists_matchesAt_iff :
    (∃ index, request.MatchesAt installed index) ↔ ∃ x ∈ installed, request.Matches x := by
  simp only [MatchesAt, List.mem_iff_getElem?]
  constructor
  · rintro ⟨index, x, hx, hmatches⟩
    exact ⟨x, ⟨index, hx⟩, hmatches⟩
  · rintro ⟨x, ⟨index, hx⟩, hmatches⟩
    exact ⟨index, x, hx, hmatches⟩

theorem ascending_candidates :
    ((request.candidates installed).map Prod.fst).Pairwise (· < ·) := by
  have hsublist : List.Sublist ((request.candidates installed).map Prod.fst)
      (installed.zipIdx.map Prod.snd) := by
    rw [candidates, List.map_map]
    exact List.filter_sublist.map Prod.snd
  rw [List.zipIdx_map_snd] at hsublist
  exact List.Pairwise.sublist hsublist List.pairwise_lt_range'

theorem listsMatches_candidates :
    request.ListsMatches installed ((request.candidates installed).map Prod.fst) := by
  refine ⟨ascending_candidates, fun index => ?_⟩
  simp only [List.mem_map, MatchesAt, ← accepts_iff]
  constructor
  · rintro ⟨⟨_, x⟩, hmem, rfl⟩
    exact ⟨x, (mem_candidates request installed).mp hmem⟩
  · rintro ⟨x, hx⟩
    exact ⟨(index, x), (mem_candidates request installed).mpr hx, rfl⟩

theorem ListsMatches.unique
    {as bs : List Nat}
    (ha : request.ListsMatches installed as)
    (hb : request.ListsMatches installed bs) :
    as = bs := by
  have hmem : ∀ index, index ∈ as ↔ index ∈ bs := fun index =>
    (ha.mem_iff index).trans (hb.mem_iff index).symm
  have hperm : as.Perm bs :=
    (List.perm_ext_iff_of_nodup (ha.ascending.imp Nat.ne_of_lt)
      (hb.ascending.imp Nat.ne_of_lt)).mpr hmem
  exact hperm.eq_of_pairwise (fun _ _ _ _ hlt hgt => absurd hlt (Nat.lt_asymm hgt))
    ha.ascending hb.ascending

end Matches

section Answers

variable {request : Request}
variable {installed : List Identity}

/-- Without a range, the answer is read off the positions of the matches. -/
theorem select_of_range_none
    (hrange : request.range = none)
    {indices : List Nat}
    (h : request.ListsMatches installed indices) :
    request.select installed = .ofIndices indices := by
  rw [h.unique listsMatches_candidates, select, hrange]
  cases request.candidates installed with
  | nil =>
      rfl
  | cons first rest =>
      cases rest with
      | nil => rfl
      | cons second rest => rfl

/-- Without a range, the only match is found. -/
theorem select_eq_found_iff_of_range_none
    (hrange : request.range = none)
    (index : Nat) :
    request.select installed = .found index ↔
      request.MatchesAt installed index ∧ ∀ j, request.MatchesAt installed j → j = index := by
  have hlists := @listsMatches_candidates request installed
  rw [select_of_range_none hrange hlists, Selection.ofIndices_eq_found_iff]
  constructor
  · intro h
    rw [h] at hlists
    exact ⟨(hlists.mem_iff index).mp (List.mem_singleton_self index), fun j hj =>
      List.mem_singleton.mp ((hlists.mem_iff j).mpr hj)⟩
  · rintro ⟨hindex, honly⟩
    refine hlists.unique ⟨List.pairwise_singleton _ index, fun j => ?_⟩
    rw [List.mem_singleton]
    exact ⟨fun heq => heq ▸ hindex, honly j⟩

/-- Without a range, all positions of matches are told if there is more than one. -/
theorem select_eq_ambiguous_iff_of_range_none
    (hrange : request.range = none)
    (indices : List Nat) :
    request.select installed = .ambiguous indices ↔
      request.ListsMatches installed indices ∧ 2 ≤ indices.length := by
  have hlists := @listsMatches_candidates request installed
  rw [select_of_range_none hrange hlists, Selection.ofIndices_eq_ambiguous_iff]
  refine and_congr_left fun _ => ⟨fun heq => heq ▸ hlists, hlists.unique⟩

/-- With a range, something is found wherever something matches. -/
theorem exists_select_of_range
    (hrange : request.range.isSome = true)
    (hmatch : ∃ index, request.MatchesAt installed index) :
    ∃ first rest, request.candidates installed = first :: rest ∧
      request.select installed = .found (greatest first rest).1 := by
  obtain ⟨range, hrange⟩ := Option.isSome_iff_exists.mp hrange
  obtain ⟨index, hindex⟩ := hmatch
  have hmem := (listsMatches_candidates.mem_iff index).mpr hindex
  rw [select, hrange]
  cases hcandidates : request.candidates installed with
  | nil =>
      rw [hcandidates] at hmem
      cases hmem
  | cons first rest =>
      refine ⟨first, rest, rfl, ?_⟩
      cases rest with
      | nil => rfl
      | cons second rest => rfl

/-- Candidates behind the greatest one have lower versions: of equals the last one is kept. -/
theorem greatest_later
    {best : Nat × Identity}
    {rest : List (Nat × Identity)}
    (hascending : (best :: rest).Pairwise (·.1 < ·.1)) :
    ∀ c ∈ best :: rest, (greatest best rest).1 < c.1 →
      compareVersions c.2.version (greatest best rest).2.version = .lt := by
  induction rest generalizing best with
  | nil =>
      intro c hc hlt
      rw [List.mem_singleton.mp hc] at hlt
      exact absurd hlt (Nat.lt_irrefl _)
  | cons next rest ih =>
      obtain ⟨hbefore, hrest⟩ := List.pairwise_cons.mp hascending
      rw [greatest]
      split
      · rename_i hgt
        have hskipped : (best :: rest).Pairwise (·.1 < ·.1) :=
          hascending.sublist ((List.sublist_cons_self next rest).cons_cons best)
        intro c hc hlt
        rcases List.mem_cons.mp hc with rfl | hc
        · exact ih hskipped c List.mem_cons_self hlt
        · rcases List.mem_cons.mp hc with rfl | hc
          · exact Std.TransCmp.lt_of_lt_of_isLE (Std.OrientedCmp.lt_of_gt hgt)
              ((greatest_spec best rest).2 best List.mem_cons_self)
          · exact ih hskipped c (List.mem_cons_of_mem best hc) hlt
      · intro c hc hlt
        rcases List.mem_cons.mp hc with rfl | hc
        · exact absurd (hbefore _ (greatest_spec next rest).1) (Nat.lt_asymm hlt)
        · exact ih hrest c hc hlt

theorem isGreatest_greatest
    (hrange : request.range.isSome = true)
    {first : Nat × Identity}
    {rest : List (Nat × Identity)}
    (hcandidates : request.candidates installed = first :: rest) :
    request.IsGreatest installed (greatest first rest).1 := by
  obtain ⟨range, hrange⟩ := Option.isSome_iff_exists.mp hrange
  obtain ⟨hmem, hmax⟩ := greatest_spec first rest
  have hascending := @ascending_candidates request installed
  rw [hcandidates, List.pairwise_map] at hascending
  have hlater := greatest_later hascending
  have hcandidate := @mem_candidates request installed
  rw [hcandidates] at hcandidate
  obtain ⟨hindex, haccepts⟩ := hcandidate.mp hmem
  obtain ⟨version, hversion, -⟩ := (accepts_iff.mp haccepts).2 range hrange
  refine ⟨_, version, hindex, accepts_iff.mp haccepts, hversion, fun j y hy hmatches => ?_⟩
  obtain ⟨other, hother, -⟩ := hmatches.2 range hrange
  have hc := (@hcandidate (j, y)).mpr ⟨hy, accepts_iff.mpr hmatches⟩
  have hle := hmax (j, y) hc
  have hlt := hlater (j, y) hc
  rw [hversion, hother] at hle hlt
  exact ⟨other, hother, hle, hlt⟩

theorem IsGreatest.matchesAt
    {index : Nat}
    (h : request.IsGreatest installed index) :
    request.MatchesAt installed index := by
  obtain ⟨x, -, hx, hmatches, -⟩ := h
  exact ⟨x, hx, hmatches⟩

/-- The greatest match stands before no other greatest match. -/
theorem IsGreatest.not_lt
    {i j : Nat}
    (hi : request.IsGreatest installed i)
    (hj : request.IsGreatest installed j) :
    ¬i < j := by
  obtain ⟨x, v, hx, hmatchesX, hv, hmaxX⟩ := hi
  obtain ⟨y, w, hy, hmatchesY, hw, hmaxY⟩ := hj
  intro hlt
  obtain ⟨w', hw', -, hlower⟩ := hmaxX j y hy hmatchesY
  obtain ⟨v', hv', hle, -⟩ := hmaxY i x hx hmatchesX
  obtain rfl := Option.some.inj (hw'.symm.trans hw)
  obtain rfl := Option.some.inj (hv'.symm.trans hv)
  exact absurd (Std.TransCmp.lt_of_lt_of_isLE (hlower hlt) hle) (by simp [Std.ReflCmp.compare_self])

/-- With a range, the match of the greatest version is found, and the last one of equals. -/
theorem select_of_range
    (hrange : request.range.isSome = true)
    (index : Nat) :
    request.select installed = .found index ↔ request.IsGreatest installed index := by
  constructor
  · intro hfound
    have hmatch : ∃ index, request.MatchesAt installed index := by
      by_contra hnone
      have hmissing : request.select installed = .missing := by
        refine select_eq_missing_iff.mpr fun x hx => ?_
        by_contra haccepts
        exact hnone (exists_matchesAt_iff.mpr
          ⟨x, hx, accepts_iff.mp (Bool.eq_true_of_not_eq_false haccepts)⟩)
      rw [hfound] at hmissing
      cases hmissing
    obtain ⟨first, rest, hcandidates, hselect⟩ := exists_select_of_range hrange hmatch
    obtain rfl := Selection.found.inj (hfound.symm.trans hselect)
    exact isGreatest_greatest hrange hcandidates
  · intro hgreatest
    obtain ⟨first, rest, hcandidates, hselect⟩ :=
      exists_select_of_range hrange ⟨index, hgreatest.matchesAt⟩
    have hother := isGreatest_greatest hrange hcandidates
    have hsame : (greatest first rest).1 = index :=
      Nat.le_antisymm (Nat.le_of_not_lt (hgreatest.not_lt hother))
        (Nat.le_of_not_lt (hother.not_lt hgreatest))
    rw [hselect, hsame]

end Answers

section Order

variable {request : Request}
variable {installed : List Identity}

/-- Among distinct packages, the selected one is the match that has no other beside it, or whose
version is greater than all others within the requested range. -/
theorem identity?_select_eq_some_iff
    (hdistinct : installed.Nodup)
    (x : Identity) :
    (request.select installed).identity? installed = some x ↔
      x ∈ installed ∧ request.accepts x = true ∧
        ∀ y ∈ installed, request.accepts y = true →
          y = x ∨ request.range.isSome = true ∧ compareVersions y.version x.version = .lt := by
  constructor
  · intro h
    cases hselect : request.select installed with
    | missing | ambiguous =>
        rw [hselect] at h
        cases h
    | found index =>
        obtain ⟨x', hx', haccepts, hbest⟩ := (select_eq_found_iff hdistinct index).mp hselect
        rw [hselect] at h
        obtain rfl := Option.some.inj (hx'.symm.trans h)
        refine ⟨List.mem_of_getElem? hx', haccepts, fun y hy hacceptsY => ?_⟩
        obtain ⟨j, hj⟩ := List.mem_iff_getElem?.mp hy
        rcases hbest j y hj hacceptsY with rfl | hlower
        · exact Or.inl (Option.some.inj (hj.symm.trans hx'))
        · exact Or.inr hlower
  · rintro ⟨hmem, haccepts, hbest⟩
    obtain ⟨index, hindex⟩ := List.mem_iff_getElem?.mp hmem
    have hfound : request.select installed = .found index := by
      refine (select_eq_found_iff hdistinct index).mpr ⟨x, hindex, haccepts, fun j y hj hy => ?_⟩
      rcases hbest y (List.mem_of_getElem? hj) hy with rfl | hlower
      · exact Or.inl ((List.getElem?_inj (List.getElem?_eq_some_iff.mp hj).1 hdistinct).mp
          (hj.trans hindex.symm))
      · exact Or.inr hlower
    rw [hfound]
    exact hindex

theorem identity?_select_of_perm
    (hdistinct : installed.Nodup)
    {installed' : List Identity}
    (hperm : installed.Perm installed') :
    (request.select installed).identity? installed =
      (request.select installed').identity? installed' := by
  ext x
  rw [identity?_select_eq_some_iff hdistinct, identity?_select_eq_some_iff (hperm.nodup hdistinct)]
  simp only [hperm.mem_iff]

end Order

/-- How a request is answered.

* Nothing is selected where nothing matches, and only there.
* Without a range, the only match is found, and where there are more, all their positions are told
  in order.
* With a range, the match is found whose version is at least that of every match; it is the last
  one of equals, and there is always one where something matches.
* Among distinct identities, the order of the list does not change which one is selected. -/
theorem select_maximum
    (request : Request)
    (installed : List Identity) :
    (request.select installed = .missing ↔ ∀ x ∈ installed, ¬request.Matches x) ∧
      (request.range = none →
        (∀ index, request.select installed = .found index ↔
          request.MatchesAt installed index ∧
            ∀ j, request.MatchesAt installed j → j = index) ∧
        ∀ indices, request.select installed = .ambiguous indices ↔
          request.ListsMatches installed indices ∧ 2 ≤ indices.length) ∧
      (request.range.isSome = true →
        (∀ index, request.select installed = .found index ↔ request.IsGreatest installed index) ∧
        ((∃ x ∈ installed, request.Matches x) →
          ∃ index, request.select installed = .found index)) ∧
      (installed.Nodup → ∀ installed', installed.Perm installed' →
        (request.select installed').identity? installed' =
          (request.select installed).identity? installed) := by
  refine ⟨?_,
    fun hrange => ⟨select_eq_found_iff_of_range_none hrange,
      select_eq_ambiguous_iff_of_range_none hrange⟩,
    fun hrange => ⟨select_of_range hrange, fun hmatch => ?_⟩,
    fun hdistinct installed' hperm => (identity?_select_of_perm hdistinct hperm).symm⟩
  · simp only [select_eq_missing_iff, ← accepts_iff, Bool.not_eq_true]
  · obtain ⟨first, rest, -, hselect⟩ :=
      exists_select_of_range hrange (exists_matchesAt_iff.mpr hmatch)
    exact ⟨_, hselect⟩

end Request

namespace Sample

/-- Three versions of one package, and a package without a version. -/
def shelf : List Identity :=
  [⟨⟨["bar"]⟩, some ⟨1, 0, 0, [], []⟩⟩, ⟨⟨["bar"]⟩, some ⟨1, 3, 0, [], []⟩⟩,
    ⟨⟨["bar"]⟩, some ⟨2, 0, 0, [], []⟩⟩, ⟨⟨["foo"]⟩, none⟩]

/-- A request for the versions that are compatible with the first one. -/
def compatible : Request :=
  ⟨⟨["bar"]⟩, some ⟨[⟨.caret, 1, some 0, some 0, []⟩]⟩⟩

end Sample

namespace Request

open Sample (shelf compatible)

/-- Of two compatible versions the greater one is selected, from the list and from its reverse, and
without the range all three positions are told. -/
theorem select_maximum_shelf :
    compatible.range.isSome = true ∧ shelf.Nodup ∧
      compatible.IsGreatest shelf 1 ∧
      (compatible.select shelf.reverse).identity? shelf.reverse = shelf[1]? ∧
      ListsMatches { compatible with range := none } shelf [0, 1, 2] := by
  have hdistinct : shelf.Nodup := by
    decide
  have hfound : compatible.select shelf = .found 1 := by
    decide
  obtain ⟨-, -, hranged, hperm⟩ := select_maximum compatible shelf
  have hreverse := hperm hdistinct shelf.reverse shelf.reverse_perm.symm
  obtain ⟨-, hplain, -⟩ := select_maximum { compatible with range := none } shelf
  refine ⟨rfl, hdistinct, ((hranged rfl).1 1).mp hfound, ?_,
    (((hplain rfl).2 [0, 1, 2]).mp (by decide)).1⟩
  rw [hreverse, hfound]
  rfl

end Request
end Schemata
