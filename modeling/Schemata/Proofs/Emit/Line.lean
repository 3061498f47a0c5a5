import Schemata.Proofs.Emit.Code
import Schemata.Proofs.Text.Line

/-!
# Lines of rendered code

Rendering writes each line of code, at any depth, as a line of the text, behind
the indentation of its depth.  Nothing that was written is taken back, so that it
is enough to follow one line.

**Results.**
* `Code.exists_hasLine_render`: each line of code is a line of the text.
* `Code.has_line_doc`, `Code.has_line_embed`: the lines of documentation, and of a
  text that is written into code.
-/

namespace Schemata
namespace Code

section Parts

/-- A line of documentation behind the mark of a comment. -/
def docLine
    (mark text : String) :
    String :=
  if text.isEmpty then mark else s!"{mark} {text}"

theorem toList_docLine
    (mark : String)
    {text : String}
    (hne : text ≠ "") :
    (docLine mark text).toList = mark.toList ++ ' ' :: text.toList := by
  have hform : docLine mark text = mark ++ " " ++ text := if_neg (by simpa using hne)
  rw [hform]
  simp

theorem has_line_doc
    (mark : String)
    {text : String}
    {texts : List String}
    (h : text ∈ texts) :
    (doc mark texts).Has (· = line (docLine mark text)) := by
  have hdoc : doc mark texts = lines (texts.map (docLine mark)) := by
    simp [doc, lines, docLine]
  rw [hdoc]
  exact has_line_lines (List.mem_map_of_mem h)

theorem has_line_embed
    {text : String}
    {piece : String}
    (h : piece ∈ Text.lines text) :
    (embed text).Has (· = line piece) :=
  has_line_lines h

end Parts

section Writing

variable (indent : String)

mutual

/-- A part is written after the lines so far. -/
theorem suffix_writeItem
    (depth : Nat) :
    ∀ (item : CodeItem) (before : List String), before <:+ writeItem indent depth item before
  | .line _, _ => List.suffix_cons _ _
  | .blank, before => by
      rw [writeItem]
      split
      · exact List.suffix_rfl
      · exact List.suffix_cons _ _
  | .indented items, before => by
      rw [writeItem]
      exact suffix_write (depth + 1) items before

/-- Code is written after the lines so far. -/
theorem suffix_write
    (depth : Nat) :
    ∀ (code : List CodeItem) (before : List String), before <:+ write indent depth code before
  | [], _ => List.suffix_rfl
  | item :: rest, before => by
      rw [write]
      exact (suffix_writeItem depth item before).trans (suffix_write depth rest _)

end

/-- A line of code is among the lines that are written. -/
theorem exists_mem_write
    {code : Code}
    {text : String}
    (h : code.Has (· = line text))
    (depth : Nat)
    (before : List String) :
    ∃ inner, lineAt indent inner text ∈ write indent depth code before := by
  induction h generalizing depth before with
  | here part rest h =>
      subst h
      exact ⟨depth, (suffix_write indent depth rest _).subset List.mem_cons_self⟩
  | inside rest _ ih =>
      obtain ⟨inner, hmem⟩ := ih (depth + 1) before
      exact ⟨inner, (suffix_write indent depth rest _).subset hmem⟩
  | later item _ ih =>
      exact ih depth (writeItem indent depth item before)

/-- A line of code is a line of the text. -/
theorem exists_hasLine_render
    {code : Code}
    {text : String}
    (h : code.Has (· = line text)) :
    ∃ depth, Text.HasLine (lineAt indent depth text).toList (render indent code).toList := by
  obtain ⟨depth, hmem⟩ := exists_mem_write indent h 0 []
  exact ⟨depth, Text.hasLine_join (List.mem_reverse.mpr hmem)⟩

/-- The indentation of a line that is not empty. -/
theorem toList_lineAt
    (depth : Nat)
    {text : String}
    (hne : text ≠ "") :
    (lineAt indent depth text).toList = (Text.times depth indent).toList ++ text.toList := by
  rw [lineAt, if_neg (by simpa using hne), String.toList_append]

theorem mem_times
    {n : Nat}
    {c : Char}
    (h : c ∈ (Text.times n indent).toList) :
    c ∈ indent.toList := by
  rw [Text.times, String.toList_join, List.mem_flatMap] at h
  obtain ⟨text, htext, hc⟩ := h
  exact (List.mem_replicate.mp htext).2 ▸ hc

end Writing

end Code
end Schemata
