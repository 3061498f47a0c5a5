import Schemata.Proofs.Naming.Words
import Schemata.Text.Basic

/-!
# Cutting joined texts

Texts that are joined by a mark are cut into the same texts, if the first
character of the mark is in none of them: then the first place at which the mark
is found is the one at which it was put.

**Results.** `cutAt?_append`, `splitOn_intercalate`, `split_intercalate`, `intercalate_split`.
-/

namespace Schemata
namespace Text

theorem stripPrefix?_append
    (mark rest : List Char) :
    stripPrefix? mark (mark ++ rest) = some rest := by
  induction mark with
  | nil =>
      cases rest <;> rfl
  | cons c mark ih =>
      simpa [stripPrefix?] using ih

theorem eq_append_of_stripPrefix?
    {mark cs rest : List Char}
    (h : stripPrefix? mark cs = some rest) :
    cs = mark ++ rest := by
  fun_induction stripPrefix? mark cs with
  | case1 cs =>
      exact Option.some.inj h
  | case2 w ws =>
      cases h
  | case3 w ws c cs heq ih =>
      rw [ih h, beq_iff_eq.mp heq, List.cons_append]
  | case4 w ws c cs hne =>
      cases h

/-- What is cut is the two parts with the mark between them. -/
theorem eq_append_of_cutAt?
    {mark cs before after : List Char}
    (h : cutAt? mark cs = some (before, after)) :
    cs = before ++ mark ++ after := by
  fun_induction cutAt? mark cs generalizing before with
  | case1 rest hrest =>
      cases h
      exact eq_append_of_stripPrefix? hrest
  | case2 hnone =>
      cases h
  | case3 c cs rest hrest =>
      cases h
      exact eq_append_of_stripPrefix? hrest
  | case4 c cs hnone ih =>
      obtain ⟨⟨before', after'⟩, hcut, heq⟩ := Option.map_eq_some_iff.mp h
      cases heq
      rw [ih hcut]
      rfl

section Cuts

variable {m : Char}
variable {ms : List Char}

/-- A text without the first character of a mark is not cut. -/
theorem cutAt?_eq_none
    {cs : List Char}
    (h : m ∉ cs) :
    cutAt? (m :: ms) cs = none := by
  induction cs with
  | nil =>
      rfl
  | cons c cs ih =>
      obtain ⟨hne, hcs⟩ := List.ne_and_not_mem_of_not_mem_cons h
      have hstrip : stripPrefix? (m :: ms) (c :: cs) = none := by
        rw [stripPrefix?, if_neg (by simpa using hne)]
      rw [cutAt?, hstrip]
      dsimp only
      rw [ih hcs, Option.map_none]

/-- A text is cut at the first mark in it. -/
theorem cutAt?_append
    {before : List Char}
    (h : m ∉ before)
    (after : List Char) :
    cutAt? (m :: ms) (before ++ m :: ms ++ after) = some (before, after) := by
  induction before with
  | nil =>
      rw [List.nil_append, List.cons_append, cutAt?, ← List.cons_append, stripPrefix?_append]
  | cons c before ih =>
      obtain ⟨hne, hbefore⟩ := List.ne_and_not_mem_of_not_mem_cons h
      have hstrip : stripPrefix? (m :: ms) (c :: (before ++ m :: ms ++ after)) = none := by
        rw [stripPrefix?, if_neg (by simpa using hne)]
      rw [List.cons_append, List.cons_append, cutAt?, hstrip]
      dsimp only
      rw [ih hbefore, Option.map_some]

/-- Pieces that are joined are found again, where enough cuts are allowed. -/
theorem splitOnAux_intercalate
    {pieces : List (List Char)}
    (hne : pieces ≠ [])
    (h : ∀ piece ∈ pieces, m ∉ piece)
    {n : Nat}
    (hn : pieces.length ≤ n + 1) :
    splitOnAux (m :: ms) n ((m :: ms).intercalate pieces) = pieces := by
  induction pieces generalizing n with
  | nil =>
      exact absurd rfl hne
  | cons first rest ih =>
      have hfirst := h first List.mem_cons_self
      cases rest with
      | nil =>
          rw [List.intercalate_singleton]
          cases n with
          | zero =>
              rfl
          | succ n =>
              rw [splitOnAux, cutAt?_eq_none hfirst]
      | cons second rest =>
          obtain ⟨n, rfl⟩ : ∃ k, n = k + 1 := ⟨n - 1, by simp at hn; omega⟩
          have hrest := ih (List.cons_ne_nil second rest)
            (fun piece hpiece => h piece (List.mem_cons_of_mem first hpiece))
            (show (second :: rest).length ≤ n + 1 by simpa using hn)
          rw [List.intercalate_cons_cons, splitOnAux, cutAt?_append hfirst]
          dsimp only
          rw [hrest]

/-- A joined text is at least as long as there are marks in it. -/
theorem length_le_intercalate
    (pieces : List (List Char)) :
    pieces.length ≤ ((m :: ms).intercalate pieces).length + 1 := by
  induction pieces with
  | nil =>
      exact Nat.zero_le _
  | cons first rest ih =>
      cases rest with
      | nil =>
          simp
      | cons second rest =>
          rw [List.intercalate_cons_cons]
          simp only [List.length_cons, List.length_append] at ih ⊢
          omega

end Cuts

/-- Texts that are joined by a mark are cut into the same texts. -/
theorem splitOn_intercalate
    {mark : String}
    {m : Char}
    {ms : List Char}
    (hmark : mark.toList = m :: ms)
    {pieces : List String}
    (hne : pieces ≠ [])
    (h : ∀ piece ∈ pieces, m ∉ piece.toList) :
    splitOn mark (String.intercalate mark pieces) = pieces := by
  have hpieces : ∀ piece ∈ pieces.map String.toList, m ∉ piece :=
    List.forall_mem_map.mpr h
  have hlength : _ ≤ ((m :: ms).intercalate (pieces.map String.toList)).length + 1 :=
    length_le_intercalate _
  rw [splitOn, ← String.length_toList, String.toList_intercalate, hmark,
    splitOnAux_intercalate (by simpa using hne) hpieces hlength, List.map_map]
  exact (List.map_congr_left fun piece _ => String.ofList_toList).trans (List.map_id pieces)

section Pieces

variable {c : Char}

theorem split_eq
    (text : String) :
    split c text = (text.toList.splitOn c).map String.ofList := by
  rw [split, Naming.splitWhen_eq_splitOnP]
  rfl

/-- Texts that are joined by a character are cut into the same texts. -/
theorem split_intercalate
    {pieces : List String}
    (hne : pieces ≠ [])
    (h : ∀ piece ∈ pieces, c ∉ piece.toList) :
    split c (String.intercalate (String.singleton c) pieces) = pieces := by
  have hpieces : ∀ piece ∈ pieces.map String.toList, c ∉ piece :=
    List.forall_mem_map.mpr h
  rw [split_eq, String.toList_intercalate, String.toList_singleton,
    List.splitOn_intercalate c hpieces (by simpa using hne), List.map_map]
  exact (List.map_congr_left fun piece _ => String.ofList_toList).trans (List.map_id pieces)

/-- The pieces of a text give the text when they are joined. -/
theorem intercalate_split
    (text : String) :
    String.intercalate (String.singleton c) (split c text) = text := by
  rw [← String.toList_inj, String.toList_intercalate, split_eq, List.map_map,
    String.toList_singleton]
  have hpieces : (text.toList.splitOn c).map (String.toList ∘ String.ofList) =
      text.toList.splitOn c :=
    (List.map_congr_left fun piece _ => String.toList_ofList).trans (List.map_id _)
  rw [hpieces, List.intercalate_splitOn]

theorem split_append
    (a b : String) :
    split c (a ++ String.singleton c ++ b) = split c a ++ split c b := by
  have hlist : (a ++ String.singleton c ++ b).toList = a.toList ++ c :: b.toList := by
    simp
  rw [split_eq, hlist, List.splitOn_append_cons_self, List.map_append, split_eq, split_eq]

theorem split_of_not_mem
    {text : String}
    (h : c ∉ text.toList) :
    split c text = [text] := by
  have hsplit : split c (String.intercalate (String.singleton c) [text]) = [text] :=
    split_intercalate (List.cons_ne_nil _ _) fun piece hpiece => List.mem_singleton.mp hpiece ▸ h
  rwa [String.intercalate_singleton] at hsplit

end Pieces

end Text
end Schemata
