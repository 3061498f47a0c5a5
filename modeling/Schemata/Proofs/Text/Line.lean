import Schemata.Proofs.Text.Cut

/-!
# Lines of a text

A line stands in a text where it begins the text or follows a line feed, and is
followed by a line feed.  Reading the lines of a text gives it back, less a
carriage return at its end.

**Results.**
* `dropReturn_append`: where the carriage return is looked for.
* `hasLine_join`: lines that are written one after the other.
* `mem_lines_of_hasLine`: lines are read.
-/

namespace Schemata
namespace Text

section Returns

variable (cs : List Char)

theorem dropReturn_concat :
    dropReturn (cs ++ ['\r']) = cs := by
  simp [dropReturn]

theorem dropReturn_prefix :
    dropReturn cs <+: cs := by
  unfold dropReturn
  split
  · exact List.dropLast_prefix cs
  · exact List.prefix_rfl

/-- A carriage return is looked for at the end only. -/
theorem dropReturn_append
    {rest : List Char}
    (hne : rest ≠ []) :
    dropReturn (cs ++ rest) = cs ++ dropReturn rest := by
  have hlast : (cs ++ rest).getLast? = rest.getLast? := List.getLast?_append_of_ne_nil cs hne
  unfold dropReturn
  rw [hlast]
  split
  · rw [List.dropLast_append_of_ne_nil hne]
  · rfl

theorem dropReturn_of_notMem
    {cs : List Char}
    (h : '\r' ∉ cs) :
    dropReturn cs = cs := by
  unfold dropReturn
  split
  next hlast => exact absurd (List.mem_of_getLast? hlast) h
  next => rfl

end Returns

/-- A line stands in a text: at the beginning or after a line feed, and before a line feed. -/
def HasLine
    (line text : List Char) : Prop :=
  ∃ before after, text = before ++ line ++ '\n' :: after ∧
    (before = [] ∨ ∃ front, before = front ++ ['\n'])

section Lines

/-- Each of several lines stands in the text of them. -/
theorem hasLine_join
    {lines : List String}
    {line : String}
    (h : line ∈ lines) :
    HasLine line.toList (String.join (lines.map (· ++ "\n"))).toList := by
  obtain ⟨before, after, rfl⟩ := List.append_of_mem h
  refine ⟨(String.join (before.map (· ++ "\n"))).toList,
    (String.join (after.map (· ++ "\n"))).toList, ?_, ?_⟩
  · simp [String.toList_join]
  · rcases List.eq_nil_or_concat before with rfl | ⟨front, last, rfl⟩
    · exact .inl rfl
    · right
      refine ⟨(String.join (front.map (· ++ "\n"))).toList ++ last.toList, ?_⟩
      simp [String.toList_join]

theorem splitWhen_append_feed
    (cs rest : List Char) :
    splitWhen (· == '\n') (cs ++ '\n' :: rest) =
      splitWhen (· == '\n') cs ++ splitWhen (· == '\n') rest := by
  simp only [Naming.splitWhen_eq_splitOnP]
  exact List.splitOn_append_cons_self ..

theorem splitWhen_ne_nil
    (cs : List Char) :
    splitWhen (· == '\n') cs ≠ [] := by
  rw [Naming.splitWhen_eq_splitOnP]
  exact List.splitOnP_ne_nil _ _

theorem splitWhen_of_notMem
    {cs : List Char}
    (h : '\n' ∉ cs) :
    splitWhen (· == '\n') cs = [cs] := by
  rw [Naming.splitWhen_eq_splitOnP]
  exact List.splitOnP_eq_singleton fun c hc => beq_eq_false_iff_ne.mpr fun heq => h (heq ▸ hc)

theorem lineList_append
    (pieces : List (List Char))
    {rest : List (List Char)}
    (hne : rest ≠ []) :
    lineList (pieces ++ rest) = pieces.map dropReturn ++ lineList rest := by
  induction pieces with
  | nil =>
      rfl
  | cons piece pieces ih =>
      obtain ⟨next, more, hnext⟩ := List.exists_cons_of_ne_nil
        (List.append_ne_nil_of_right_ne_nil pieces hne)
      rw [List.map_cons, List.cons_append, List.cons_append, ← ih, hnext]
      rfl

/-- A line that stands in a text is read, less a carriage return at its end. -/
theorem mem_lines_of_hasLine
    {line : List Char}
    {text : String}
    (h : HasLine line text.toList)
    (hfeed : '\n' ∉ line) :
    String.ofList (dropReturn line) ∈ lines text := by
  obtain ⟨before, after, htext, hbefore⟩ := h
  have hpieces : ∃ pieces, splitWhen (· == '\n') text.toList =
      pieces ++ [line] ++ splitWhen (· == '\n') after := by
    rw [htext, splitWhen_append_feed]
    rcases hbefore with rfl | ⟨front, rfl⟩
    · exact ⟨[], by rw [List.nil_append, splitWhen_of_notMem hfeed]; rfl⟩
    · refine ⟨splitWhen (· == '\n') front, ?_⟩
      rw [List.append_assoc, List.singleton_append, splitWhen_append_feed,
        splitWhen_of_notMem hfeed]
  obtain ⟨pieces, hpieces⟩ := hpieces
  refine List.mem_map_of_mem ?_
  rw [hpieces, lineList_append _ (splitWhen_ne_nil after)]
  simp

end Lines

end Text
end Schemata
