import Schemata.Emit.Code
import Schemata.Emit.Name
import Schemata.Proofs.Naming.Spelling
import Mathlib.Tactic

/-!
# What stands in generated code

Code is nested, and a statement about it is most often that something stands
somewhere in it.  `Code.Has` says this of any property of a part, and is kept
by everything that code is put together with.  A text is printed when a part
is a line in which the text stands; a block is defined when a part is its
header followed by its inside.

**Results.**
* `Code.Has.append_left`, `Code.Has.append_right`, `Code.Has.flatMap`,
  `Code.Has.blockEnding`: what stands in a part of code stands in the code.
* `Emit.exists_mem_zip_spellAll`: siblings are spelled one by one.
-/

namespace Schemata

namespace Text

/-- A text stands in another one. -/
def Within
    (inner outer : String) : Prop :=
  inner.toList <:+: outer.toList

namespace Within

variable {inner outer : String}

theorem refl :
    Within inner inner :=
  List.infix_rfl

theorem append_left
    (h : Within inner outer)
    (after : String) :
    Within inner (outer ++ after) := by
  rw [Within, String.toList_append]
  exact h.trans (List.prefix_append _ _).isInfix

theorem append_right
    (h : Within inner outer)
    (before : String) :
    Within inner (before ++ outer) := by
  rw [Within, String.toList_append]
  exact h.trans (List.suffix_append _ _).isInfix

theorem intercalate
    (h : Within inner outer)
    (separator : String)
    {texts : List String}
    (hmem : outer ∈ texts) :
    Within inner (String.intercalate separator texts) := by
  refine List.IsInfix.trans h ?_
  rw [String.toList_intercalate]
  induction texts with
  | nil =>
      cases hmem
  | cons first rest ih =>
      rcases List.mem_cons.mp hmem with rfl | hmem
      · cases rest with
        | nil => simp
        | cons second rest =>
            rw [List.map_cons, List.map_cons, List.intercalate_cons_cons, List.append_assoc]
            exact (List.prefix_append _ _).isInfix
      · obtain ⟨second, rest, rfl⟩ := List.exists_cons_of_ne_nil (List.ne_nil_of_mem hmem)
        rw [List.map_cons, List.map_cons, List.intercalate_cons_cons]
        exact (ih hmem).trans (List.suffix_append _ _).isInfix

end Within

end Text

open Text (Within)

namespace Code

/-- Code has a part with a property, at any depth. -/
inductive Has (P : Code → Prop) : Code → Prop
  | here (part rest : Code) (h : P part) : Has P (part ++ rest)
  | inside {body : Code} (rest : Code) (h : Has P body) : Has P (.indented body :: rest)
  | later {rest : Code} (item : CodeItem) (h : Has P rest) : Has P (item :: rest)

namespace Has

variable {P Q : Code → Prop}
variable {code : Code}

theorem whole
    (h : P code) :
    Has P code := by
  rw [← List.append_nil code]
  exact .here code [] h

theorem append_left
    (h : Has P code)
    (after : Code) :
    Has P (code ++ after) := by
  induction h with
  | here part rest h =>
      rw [List.append_assoc]
      exact .here part _ h
  | inside rest h => exact .inside _ h
  | later item _ ih => exact .later item ih

/-- What stands in each part of a kind stands in the code. -/
theorem trans
    (h : Has P code)
    (hpart : ∀ part, P part → Has Q part) :
    Has Q code := by
  induction h with
  | here part rest h => exact (hpart part h).append_left rest
  | inside rest _ ih => exact .inside rest ih
  | later item _ ih => exact .later item ih

theorem append_right
    (h : Has P code)
    (before : Code) :
    Has P (before ++ code) := by
  induction before with
  | nil => exact h
  | cons item before ih => exact .later item ih

theorem flatMap
    {α : Type}
    {f : α → Code}
    {a : α}
    {as : List α}
    (h : Has P (f a))
    (hmem : a ∈ as) :
    Has P (as.flatMap f) := by
  obtain ⟨before, after, rfl⟩ := List.append_of_mem hmem
  rw [List.flatMap_append, List.flatMap_cons]
  exact (h.append_left _).append_right _

theorem blockEnding
    (h : Has P code)
    (footer header : String) :
    Has P (blockEnding footer header code) :=
  append_left (append_right (.inside [] h) _) _

theorem block
    (h : Has P code)
    (header : String) :
    Has P (block header code) :=
  h.blockEnding _ header

theorem twoBlocks
    (h : Has P code)
    (first second : String)
    (other : Code) :
    Has P (twoBlocks first code second other) :=
  append_left (append_left (append_left (append_right (.inside [] h) _) _) _) _

end Has

theorem has_line_lines
    {text : String}
    {texts : List String}
    (h : text ∈ texts) :
    (lines texts).Has (· = line text) := by
  obtain ⟨before, after, rfl⟩ := List.append_of_mem h
  rw [lines, List.map_append, List.map_cons]
  refine Has.append_right (P := (· = line text)) ?_ _
  exact .here (line text) _ rfl

/-- A text stands in a line of code. -/
def Prints
    (text : String)
    (code : Code) : Prop :=
  code.Has fun part => ∃ line, part = [.line line] ∧ Within text line

/-- Code has a block with a name in its header, and the block begins with `body`. -/
def Defines
    (name : String)
    (body code : Code) : Prop :=
  code.Has fun part =>
    ∃ header inside, part = [.line header, .indented inside] ∧ Within name header ∧ body <+: inside

theorem prints_line
    {text line : String}
    (h : Within text line) :
    Prints text (Code.line line) :=
  .here [.line line] [] ⟨line, rfl, h⟩

theorem prints_header
    {text header : String}
    (h : Within text header)
    (body : Code) :
    Prints text (block header body) :=
  .here [_] _ ⟨_, rfl, h.append_left _⟩

theorem defines_blockEnding
    {name header : String}
    (h : Within name header)
    (footer : String)
    {body inside : Code}
    (hbody : body <+: inside) :
    Defines name body (blockEnding footer header inside) :=
  .here [_, _] _ ⟨_, inside, rfl, h.append_left _, hbody⟩

end Code

namespace Emit

open Naming (Casing Language)

/-- Every name is spelled. -/
theorem exists_mem_zip_spellAll
    {α : Type}
    (language : Language)
    (casing : Casing)
    (name : α → String)
    {as : List α}
    {a : α}
    (ha : a ∈ as) :
    ∃ ident, (a, ident) ∈ as.zip (language.spellAll casing (as.map name)) := by
  obtain ⟨i, hi, rfl⟩ := List.getElem_of_mem ha
  have hlength : (as.zip (language.spellAll casing (as.map name))).length = as.length := by
    rw [List.length_zip, Language.length_spellAll, List.length_map, Nat.min_self]
  have hmem := List.getElem_mem (hlength ▸ hi)
  rw [List.getElem_zip] at hmem
  exact ⟨_, hmem⟩

theorem exists_member
    (language : Language)
    (casing : Casing)
    {fields : List Field}
    {f : Field}
    (hf : f ∈ fields) :
    ∃ m ∈ members language casing fields, m.field = f := by
  obtain ⟨ident, hmem⟩ := exists_mem_zip_spellAll language casing (·.name) hf
  rw [members, ← List.map_uncurry_zip_eq_zipWith]
  exact ⟨_, List.mem_map_of_mem hmem, rfl⟩

theorem field_mem_of_mem_members
    {language : Language}
    {casing : Casing}
    {fields : List Field}
    {m : Member}
    (h : m ∈ members language casing fields) :
    m.field ∈ fields := by
  rw [members, ← List.map_uncurry_zip_eq_zipWith] at h
  obtain ⟨pair, hpair, rfl⟩ := List.mem_map.mp h
  exact (List.of_mem_zip hpair).1

end Emit

end Schemata
