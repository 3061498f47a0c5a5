import Schemata.Proofs.Target.File
import Schemata.Proofs.Target.Site

/-!
# What a name stands for

A place in generated code has frames around it, innermost first, and each
frame binds names.  A name stands for what the innermost frame that has it
binds it to, if that is one thing.

Names of types and names of values are told apart by how they begin, where the
reserved words of the language begin with small letters.

**Results.**
* `means_append`: a name is looked for in the inner frames first.
* `Means.unique`: a name stands for one thing at most.
* `firstSegment_of_append`: where a dotted name begins.
* `not_isValueName_typeIdent`: no type has the name of a value.
-/

namespace Schemata

/-- The outermost declarations that a backend has code for. -/
def Emit.written
    (s : Schema)
    (options : EmitOptions)
    (b : Backend) :
    List DeclId :=
  (roots s options).filter fun d => (b.error? s d).isNone

theorem Emit.mem_ids_of_mem_written
    {s : Schema}
    (hs : s.Linked)
    {options : EmitOptions}
    {b : Backend}
    {d : DeclId}
    (hd : d ∈ written s options b) :
    d ∈ s.ids :=
  mem_ids_of_mem_roots hs options (List.mem_filter.mp hd).1

namespace Target

open Naming (Casing Language)

/-- The types that a backend has code for. -/
def classes
    (s : Schema)
    (options : EmitOptions)
    (b : Backend) :
    List Site :=
  (sites s).filter fun x => s.rootOf x.place ∈ Emit.written s options b

theorem mem_classes
    {s : Schema}
    {options : EmitOptions}
    {b : Backend}
    {x : Site} :
    x ∈ classes s options b ↔ x ∈ sites s ∧ s.rootOf x.place ∈ Emit.written s options b := by
  rw [classes, List.mem_filter, decide_eq_true_iff]

section Frames

/-- What a name in generated code may stand for. -/
inductive Meaning where
  /-- The class of a type. -/
  | type (x : Site)
  /-- The module of a package. -/
  | package (index : Nat)
  /-- A namespace. -/
  | space (segments : List String)
  /-- Something that no name of a schema stands for. -/
  | other

/-- What one scope binds. -/
abbrev Frame := List (String × Meaning)

/-- A scope that binds names of values. -/
def valueFrame
    (names : List String) :
    Frame :=
  names.map fun name => (name, .other)

theorem mem_valueFrame
    {names : List String}
    {name : String}
    {m : Meaning} :
    (name, m) ∈ valueFrame names ↔ name ∈ names ∧ m = .other := by
  simp only [valueFrame, List.mem_map, Prod.mk.injEq]
  constructor
  · rintro ⟨_, hmem, rfl, rfl⟩
    exact ⟨hmem, rfl⟩
  · rintro ⟨hmem, rfl⟩
    exact ⟨name, hmem, rfl, rfl⟩

/-- In some frames, innermost first, a name stands for one thing: the innermost frame that binds the
name binds it to nothing else. -/
inductive Means
    (name : String)
    (m : Meaning) :
    List Frame → Prop
  | here
      {frame : Frame}
      {frames : List Frame}
      (hmem : (name, m) ∈ frame)
      (honly : ∀ n, (name, n) ∈ frame → n = m) :
      Means name m (frame :: frames)
  | outer
      {frame : Frame}
      {frames : List Frame}
      (habsent : ∀ n, (name, n) ∉ frame)
      (h : Means name m frames) :
      Means name m (frame :: frames)

variable {name : String}
variable {m : Meaning}
variable {frame : Frame}
variable {frames : List Frame}

theorem means_cons_of_absent
    (habsent : ∀ n, (name, n) ∉ frame) :
    Means name m (frame :: frames) ↔ Means name m frames := by
  constructor
  · intro h
    cases h with
    | here hmem _ => exact absurd hmem (habsent m)
    | outer _ h => exact h
  · exact .outer habsent

theorem means_cons_of_mem
    {bound : Meaning}
    (hbound : (name, bound) ∈ frame) :
    Means name m (frame :: frames) ↔ ∀ n, (name, n) ∈ frame → n = m := by
  constructor
  · intro h
    cases h with
    | here _ honly => exact honly
    | outer habsent _ => exact absurd hbound (habsent bound)
  · intro honly
    exact .here (honly bound hbound ▸ hbound) honly

theorem means_singleton_iff :
    Means name m [frame] ↔ (name, m) ∈ frame ∧ ∀ n, (name, n) ∈ frame → n = m := by
  constructor
  · intro h
    cases h with
    | here hmem honly => exact ⟨hmem, honly⟩
    | outer _ h => cases h
  · rintro ⟨hmem, honly⟩
    exact .here hmem honly

/-- A name that stands for something else than a value is not among values around it. -/
theorem means_valueFrame_cons
    (names : List String)
    (hm : m ≠ .other) :
    Means name m (valueFrame names :: frames) ↔ name ∉ names ∧ Means name m frames := by
  by_cases hname : name ∈ names
  · have hbound : (name, Meaning.other) ∈ valueFrame names := mem_valueFrame.mpr ⟨hname, rfl⟩
    rw [means_cons_of_mem hbound]
    exact ⟨fun h => absurd (h _ hbound).symm hm, fun h => absurd hname h.1⟩
  · have habsent : ∀ n, (name, n) ∉ valueFrame names := fun n hn => hname (mem_valueFrame.mp hn).1
    rw [means_cons_of_absent habsent]
    exact ⟨fun h => ⟨hname, h⟩, fun h => h.2⟩

theorem Means.exists_mem
    (h : Means name m frames) :
    ∃ frame ∈ frames, (name, m) ∈ frame := by
  induction h with
  | here hmem _ =>
      exact ⟨_, List.mem_cons_self, hmem⟩
  | outer _ _ ih =>
      obtain ⟨frame, hframe, hmem⟩ := ih
      exact ⟨frame, List.mem_cons_of_mem _ hframe, hmem⟩

/-- A name is looked for in the inner frames first. -/
theorem means_append
    (inner outer : List Frame) :
    Means name m (inner ++ outer) ↔ Means name m inner ∨
      (∀ frame ∈ inner, ∀ n, (name, n) ∉ frame) ∧ Means name m outer := by
  induction inner with
  | nil =>
      refine ⟨fun h => .inr ⟨by simp, h⟩, ?_⟩
      rintro (h | ⟨-, h⟩)
      · cases h
      · exact h
  | cons frame inner ih =>
      by_cases habsent : ∀ n, (name, n) ∉ frame
      · rw [List.cons_append, means_cons_of_absent habsent, means_cons_of_absent habsent, ih,
          List.forall_mem_cons]
        grind
      · push Not at habsent
        obtain ⟨bound, hbound⟩ := habsent
        rw [List.cons_append, means_cons_of_mem hbound, means_cons_of_mem hbound]
        refine ⟨.inl, ?_⟩
        rintro (h | ⟨habsent, -⟩)
        · exact h
        · exact absurd hbound (habsent frame List.mem_cons_self bound)

/-- A name stands for one thing at most. -/
theorem Means.unique
    {n : Meaning}
    (h : Means name m frames)
    (h' : Means name n frames) :
    m = n := by
  induction h with
  | here hmem _ =>
      exact (means_cons_of_mem hmem).mp h' m hmem
  | outer habsent _ ih =>
      exact ih ((means_cons_of_absent habsent).mp h')

end Frames

section Segments

/-- A dotted name up to its first dot. -/
def firstSegment
    (text : String) :
    String :=
  String.ofList (text.toList.takeWhile (· != '.'))

theorem firstSegment_of_append
    {text first : String}
    (hfirst : '.' ∉ first.toList)
    {rest : List Char}
    (hrest : rest = [] ∨ ∃ after, rest = '.' :: after)
    (htext : text.toList = first.toList ++ rest) :
    firstSegment text = first := by
  have hall : ∀ c ∈ first.toList, (c != '.') = true := by
    intro c hc
    rw [bne_iff_ne]
    rintro rfl
    exact hfirst hc
  have hstop : rest.takeWhile (· != '.') = [] := by
    rcases hrest with rfl | ⟨after, rfl⟩ <;> rfl
  rw [firstSegment, htext, List.takeWhile_append_of_pos hall, hstop, List.append_nil,
    String.ofList_toList]

theorem toList_intercalate_cons
    (separator first : String)
    (rest : List String) :
    ∃ after, (String.intercalate separator (first :: rest)).toList = first.toList ++ after ∧
      (after = [] ∨ ∃ more, after = separator.toList ++ more) := by
  rw [String.toList_intercalate, List.map_cons]
  cases rest with
  | nil =>
      exact ⟨[], by simp, .inl rfl⟩
  | cons second rest =>
      rw [List.map_cons, List.intercalate_cons_cons, List.append_assoc]
      exact ⟨_, rfl, .inr ⟨_, rfl⟩⟩

/-- A path begins with the first of its steps. -/
theorem firstSegment_intercalate
    {first : String}
    (hfirst : '.' ∉ first.toList)
    (rest : List String) :
    firstSegment (String.intercalate "." (first :: rest)) = first := by
  obtain ⟨after, htext, hafter⟩ := toList_intercalate_cons "." first rest
  exact firstSegment_of_append hfirst hafter htext

end Segments

section Identifiers

/-- The text begins as names of values do: with a small letter or an underscore. -/
def IsValueName
    (text : String) : Prop :=
  ∃ c cs, text.toList = c :: cs ∧ (c.isLower = true ∨ c = '_')

/-- The reserved words of the language begin with small letters. -/
def reservesValues
    (language : Language) :
    Bool :=
  language.reserved.all fun word => word.toList.head?.any (·.isLower)

theorem reservesValues_javascript :
    reservesValues .javascript = true := by
  decide +kernel

theorem reservesValues_csharp :
    reservesValues .csharp = true := by
  decide +kernel

variable {language : Language}
variable (hlanguage : reservesValues language = true)

include hlanguage

theorem typeIdent_eq_upperCamel
    (name : String) :
    Emit.typeIdent language name = Casing.upperCamel.apply name := by
  refine if_neg fun hreserved => ?_
  obtain ⟨c, hc, hlower⟩ := (Option.any_eq_true _ _).mp
    (List.all_eq_true.mp hlanguage _ (List.contains_iff_mem.mp hreserved))
  rw [Naming.not_isLower_of_head?_upperCamel hc] at hlower
  cases hlower

/-- No type has the name of a value. -/
theorem not_isValueName_typeIdent
    (name : String) :
    ¬IsValueName (Emit.typeIdent language name) := by
  rw [typeIdent_eq_upperCamel hlanguage]
  rintro ⟨c, cs, htext, hlower | rfl⟩
  · rw [Naming.not_isLower_of_head?_upperCamel (c := c) (by rw [htext]; rfl)] at hlower
    cases hlower
  · refine Naming.underscore_not_mem_upperCamel name ?_
    rw [htext]
    exact List.mem_cons_self

theorem typeIdent_ne_of_isValueName
    {text : String}
    (htext : IsValueName text)
    (name : String) :
    Emit.typeIdent language name ≠ text := by
  rintro rfl
  exact not_isValueName_typeIdent hlanguage name htext

/-- No scope of values binds the name of a type. -/
theorem typeIdent_not_mem_valueFrame
    {names : List String}
    (hnames : ∀ text ∈ names, IsValueName text)
    (name : String) :
    ∀ m, (Emit.typeIdent language name, m) ∉ valueFrame names := by
  intro m hm
  exact not_isValueName_typeIdent hlanguage name (hnames _ (mem_valueFrame.mp hm).1)

end Identifiers

end Target
end Schemata
