import Mathlib.Logic.Relation
import Schemata.Proofs.Resolve.Cycle
import Schemata.Proofs.Resolve.Requirement
import Schemata.Schema.Lookup

/-!
# Types that a type contains

A type contains its items, its keys and values, the components of an inline
tuple, and the types of the fields of a declaration that it names, those of the
cases of an interface included; `StepsTo` is one such step and a type reaches
another in any number of them.

`typeContains` looks for a type with a property depth first and does not go into
a declaration that it has gone into before.  What it still finds is what can be
reached without a step out of such a declaration (`Finds`): where a path leads
through the declaration that the search goes into now, its part after the last
such step starts at a field of this declaration and does without it
(`Finds.expand`).  So a declaration in progress never hides anything, on cycles
either.

**Results.** `typeContains_iff`, `resolve_typeContains`.
-/

namespace Schemata

namespace Schema

section Search

variable (s : Schema)

/-- One step from a type to a type that it contains. -/
inductive StepsTo : TypeRef → TypeRef → Prop where
  | item (item : TypeRef) :
      StepsTo (.array item) item
  | key (key value : TypeRef) :
      StepsTo (.map key value) key
  | value (key value : TypeRef) :
      StepsTo (.map key value) value
  | component {items : List TypeRef} {item : TypeRef} (h : item ∈ items) :
      StepsTo (.tuple items) item
  | field {id : DeclId} {f : Field} (h : f ∈ (s.decl id).allFields) :
      StepsTo (.decl id) f.type

/-- A type reaches the types that it contains, in any number of steps. -/
def Reaches :
    TypeRef → TypeRef → Prop :=
  Relation.ReflTransGen s.StepsTo

/-- A step that leads out of none of the declarations `seen`. -/
structure StepsOutside
    (seen : List DeclId)
    (type next : TypeRef) :
    Prop where
  step : s.StepsTo type next
  outside : ∀ id ∈ seen, type ≠ .decl id

/-- A type with the property can be reached without a step out of the declarations `seen`. -/
def Finds
    (property : TypeRef → Bool)
    (seen : List DeclId)
    (type : TypeRef) :
    Prop :=
  ∃ target, Relation.ReflTransGen (s.StepsOutside seen) type target ∧ property target = true

variable {s}
variable {property : TypeRef → Bool}
variable {seen : List DeclId}

theorem stepsTo_decl_iff
    (id : DeclId)
    (type : TypeRef) :
    s.StepsTo (.decl id) type ↔ type ∈ s.fieldTypes id := by
  constructor
  · rintro ⟨⟩
    next f hf => exact List.mem_map_of_mem hf
  · intro h
    obtain ⟨f, hf, rfl⟩ := List.mem_map.mp h
    exact .field hf

theorem Finds.here
    {type : TypeRef}
    (h : property type = true) :
    s.Finds property seen type :=
  ⟨type, .refl, h⟩

theorem Finds.head
    {type next : TypeRef}
    (hstep : s.StepsOutside seen type next)
    (h : s.Finds property seen next) :
    s.Finds property seen type := by
  obtain ⟨target, hpath, htarget⟩ := h
  exact ⟨target, hpath.head hstep, htarget⟩

/-- Where the type itself does not have the property, it is found behind the next step. -/
theorem finds_iff
    {type : TypeRef}
    (hnot : ¬ property type = true) :
    s.Finds property seen type ↔
      ∃ next, s.StepsOutside seen type next ∧ s.Finds property seen next := by
  constructor
  · rintro ⟨target, hpath, htarget⟩
    rcases hpath.cases_head with rfl | ⟨next, hstep, hrest⟩
    · exact absurd htarget hnot
    · exact ⟨next, hstep, target, hrest, htarget⟩
  · rintro ⟨next, hstep, h⟩
    exact h.head hstep

/-- Of a type that is no declaration all steps are free. -/
theorem finds_iff_of_ne_decl
    {type : TypeRef}
    (hne : ∀ id, type ≠ .decl id)
    (hnot : ¬ property type = true) :
    s.Finds property seen type ↔ ∃ next, s.StepsTo type next ∧ s.Finds property seen next := by
  rw [finds_iff hnot]
  constructor
  · rintro ⟨next, hstep, h⟩
    exact ⟨next, hstep.step, h⟩
  · rintro ⟨next, hstep, h⟩
    exact ⟨next, ⟨hstep, fun id _ => hne id⟩, h⟩

theorem not_finds_primitive
    {p : Primitive}
    (hnot : ¬ property (.primitive p) = true) :
    ¬ s.Finds property seen (.primitive p) := by
  rw [finds_iff_of_ne_decl (by simp) hnot]
  rintro ⟨next, ⟨⟩, -⟩

theorem finds_array_iff
    {item : TypeRef}
    (hnot : ¬ property (.array item) = true) :
    s.Finds property seen (.array item) ↔ s.Finds property seen item := by
  rw [finds_iff_of_ne_decl (by simp) hnot]
  constructor
  · rintro ⟨next, ⟨⟩, h⟩
    exact h
  · exact fun h => ⟨item, .item item, h⟩

theorem finds_map_iff
    {key value : TypeRef}
    (hnot : ¬ property (.map key value) = true) :
    s.Finds property seen (.map key value) ↔
      s.Finds property seen key ∨ s.Finds property seen value := by
  rw [finds_iff_of_ne_decl (by simp) hnot]
  constructor
  · rintro ⟨next, ⟨⟩, h⟩
    · exact Or.inl h
    · exact Or.inr h
  · rintro (h | h)
    · exact ⟨key, .key key value, h⟩
    · exact ⟨value, .value key value, h⟩

theorem finds_tuple_iff
    {items : List TypeRef}
    (hnot : ¬ property (.tuple items) = true) :
    s.Finds property seen (.tuple items) ↔ ∃ item ∈ items, s.Finds property seen item := by
  rw [finds_iff_of_ne_decl (by simp) hnot]
  constructor
  · rintro ⟨next, ⟨⟩, h⟩
    next hitem => exact ⟨next, hitem, h⟩
  · rintro ⟨item, hitem, h⟩
    exact ⟨item, .component hitem, h⟩

theorem not_finds_of_mem
    {id : DeclId}
    (hseen : id ∈ seen)
    (hnot : ¬ property (.decl id) = true) :
    ¬ s.Finds property seen (.decl id) := by
  rw [finds_iff hnot]
  rintro ⟨next, hstep, -⟩
  exact hstep.outside id hseen rfl

/-- What is found with more declarations closed is found with fewer. -/
theorem Finds.of_cons
    {id : DeclId}
    {type : TypeRef}
    (h : s.Finds property (id :: seen) type) :
    s.Finds property seen type := by
  obtain ⟨target, hpath, htarget⟩ := h
  refine ⟨target, Relation.ReflTransGen.mono (fun type next hstep => ?_) _ _ hpath, htarget⟩
  exact ⟨hstep.step, fun other hother => hstep.outside other (List.mem_cons_of_mem _ hother)⟩

/-- A declaration can be closed, if the search goes on at its fields too: a path through it starts
anew behind its last step out of it. -/
theorem Finds.expand
    (id : DeclId)
    {type : TypeRef}
    (h : s.Finds property seen type) :
    s.Finds property (id :: seen) type ∨
      ∃ next ∈ s.fieldTypes id, s.Finds property (id :: seen) next := by
  obtain ⟨target, hpath, htarget⟩ := h
  induction hpath using Relation.ReflTransGen.head_induction_on with
  | refl =>
      exact Or.inl (Finds.here htarget)
  | @head type next hstep hrest ih =>
      rcases ih with hnext | hfield
      · by_cases htype : type = .decl id
        · subst htype
          exact Or.inr ⟨next, (stepsTo_decl_iff id next).mp hstep.step, hnext⟩
        · refine Or.inl (hnext.head ⟨hstep.step, fun other hother => ?_⟩)
          rcases List.mem_cons.mp hother with rfl | hold
          · exact htype
          · exact hstep.outside other hold
      · exact Or.inr hfield

/-- To go into a new declaration is to close it and to wait for its fields in its place. -/
theorem exists_finds_cons_decl
    {id : DeclId}
    (hnew : id ∉ seen)
    (hnot : ¬ property (.decl id) = true)
    (todo : List TypeRef) :
    (∃ type ∈ .decl id :: todo, s.Finds property seen type) ↔
      ∃ type ∈ s.fieldTypes id ++ todo, s.Finds property (id :: seen) type := by
  constructor
  · rintro ⟨type, hmem, h⟩
    rcases h.expand id with hstay | ⟨next, hnext, hfind⟩
    · rcases List.mem_cons.mp hmem with rfl | hmem
      · exact absurd hstay (not_finds_of_mem List.mem_cons_self hnot)
      · exact ⟨type, List.mem_append_right _ hmem, hstay⟩
    · exact ⟨next, List.mem_append_left _ hnext, hfind⟩
  · rintro ⟨type, hmem, h⟩
    rcases List.mem_append.mp hmem with hfield | hmem
    · refine ⟨.decl id, List.mem_cons_self, h.of_cons.head ⟨?_, ?_⟩⟩
      · exact (stepsTo_decl_iff id type).mpr hfield
      · rintro other hother ⟨⟩
        exact hnew hother
    · exact ⟨type, List.mem_cons_of_mem _ hmem, h.of_cons⟩

/-- The search answers exactly whether it can find something from a type that waits. -/
theorem containsFrom_iff
    (property : TypeRef → Bool)
    (seen : List DeclId)
    (todo : List TypeRef) :
    s.containsFrom property seen todo = true ↔ ∃ type ∈ todo, s.Finds property seen type := by
  fun_induction containsFrom s property seen todo with
  | case1 seen =>
      simp
  | case2 seen type todo hproperty =>
      simp only [true_iff]
      exact ⟨type, List.mem_cons_self, Finds.here hproperty⟩
  | case3 seen todo p hnot ih =>
      rw [ih, List.exists_mem_cons_iff]
      simp only [not_finds_primitive hnot, false_or]
  | case4 seen todo item hnot ih =>
      rw [ih, List.exists_mem_cons_iff, List.exists_mem_cons_iff, finds_array_iff hnot]
  | case5 seen todo key value hnot ih =>
      rw [ih, List.exists_mem_cons_iff, List.exists_mem_cons_iff, List.exists_mem_cons_iff,
        finds_map_iff hnot, or_assoc]
  | case6 seen todo items hnot ih =>
      rw [ih, List.exists_mem_cons_iff, finds_tuple_iff hnot]
      simp only [List.mem_append, or_and_right, exists_or]
  | case7 seen todo id hseen hnot ih =>
      rw [ih, List.exists_mem_cons_iff]
      simp only [not_finds_of_mem hseen hnot, false_or]
  | case8 seen todo id hnew hnot ih =>
      rw [ih, exists_finds_cons_decl hnew hnot]

end Search

section Closed

variable {s : Schema}

/-- A search that has gone into nothing finds what can be reached. -/
theorem finds_nil_iff
    (property : TypeRef → Bool)
    (type : TypeRef) :
    s.Finds property [] type ↔ ∃ target, s.Reaches type target ∧ property target = true := by
  have hfree : s.StepsOutside [] = s.StepsTo := by
    ext type next
    exact ⟨fun h => h.step, fun h => ⟨h, by simp⟩⟩
  rw [Finds, Reaches, hfree]

/-- A type contains one with a property exactly if it reaches one. -/
theorem typeContains_iff
    (property : TypeRef → Bool)
    (type : TypeRef) :
    s.typeContains property type = true ↔
      ∃ target, s.Reaches type target ∧ property target = true := by
  rw [typeContains, containsFrom_iff]
  simp only [List.mem_singleton, exists_eq_left]
  exact finds_nil_iff property type

/-- All types of fields, those of the cases of interfaces included, mention declarations of the
schema only. -/
def FieldsExist
    (s : Schema) :
    Prop :=
  ∀ id ∈ s.ids, ∀ type ∈ s.fieldTypes id, ∀ t ∈ type.mentioned, t ∈ s.ids

theorem FieldsExist.step
    (hs : s.FieldsExist)
    {type next : TypeRef}
    (hstep : s.StepsTo type next)
    (htype : ∀ id ∈ type.mentioned, id ∈ s.ids) :
    ∀ id ∈ next.mentioned, id ∈ s.ids := by
  intro t ht
  cases hstep with
  | item =>
      exact htype t ((TypeRef.mem_mentioned_array _ _).mpr ht)
  | key =>
      exact htype t ((TypeRef.mem_mentioned_map _ _ _).mpr (Or.inl ht))
  | value =>
      exact htype t ((TypeRef.mem_mentioned_map _ _ _).mpr (Or.inr ht))
  | component hitem =>
      exact htype t ((TypeRef.mem_mentioned_tuple _ _).mpr ⟨next, hitem, ht⟩)
  | @field id f hf =>
      have hid : id ∈ s.ids := htype id (List.mem_singleton_self id)
      exact hs id hid f.type (List.mem_map_of_mem hf) t ht

/-- From types that mention declarations of the schema only such types are reached. -/
theorem FieldsExist.reaches
    (hs : s.FieldsExist)
    {type target : TypeRef}
    (hpath : s.Reaches type target)
    (htype : ∀ id ∈ type.mentioned, id ∈ s.ids) :
    ∀ id ∈ target.mentioned, id ∈ s.ids := by
  induction hpath with
  | refl =>
      exact htype
  | tail _ hstep ih =>
      exact hs.step hstep ih

theorem fieldsExist_of_resolvedFrom
    {options : ResolveOptions}
    {files : List SourceFile}
    (h : Resolve.ResolvedFrom options files s) :
    s.FieldsExist := by
  intro id hid type htype t ht
  obtain ⟨f, hf, rfl⟩ := List.mem_map.mp htype
  obtain ⟨place, hplace⟩ := Decl.exists_typed_of_field hf
  exact mem_ids_of_typed h hid hplace ht

end Closed

end Schema

/-- In a schema without errors the search for a contained type answers exactly whether such a type
can be reached, and from a type of the schema it never leaves the schema. -/
theorem resolve_typeContains
    {options : ResolveOptions}
    {files : List SourceFile}
    {r : Resolved}
    (h : resolve options files = .ok r) :
    (∀ (property : TypeRef → Bool) (type : TypeRef),
      r.schema.typeContains property type = true ↔
        ∃ target, r.schema.Reaches type target ∧ property target = true) ∧
    ∀ type target : TypeRef, (∀ id ∈ type.mentioned, id ∈ r.schema.ids) →
      r.schema.Reaches type target → ∀ id ∈ target.mentioned, id ∈ r.schema.ids := by
  refine ⟨Schema.typeContains_iff, fun type target htype hpath => ?_⟩
  have hs := Schema.fieldsExist_of_resolvedFrom (Resolve.resolvedFrom_of_resolve h)
  exact hs.reaches hpath htype

/-- A key and its ring hold each other, and neither leads to a number; a case that holds a key has a
number of its own. -/
theorem resolve_typeContains_rings :
    resolve Sample.options [Sample.rings] = .ok ⟨Sample.ringSchema, Sample.ringWarnings⟩ ∧
      (¬ ∃ target, Sample.ringSchema.Reaches (.array (.decl ⟨0, 0⟩)) target ∧
        (target == .primitive .u32) = true) ∧
      ∃ target, Sample.ringSchema.Reaches (.array (.decl ⟨0, 3⟩)) target ∧
        (target == .primitive .u32) = true := by
  have hcontains := (resolve_typeContains Sample.resolve_rings).1 (· == .primitive .u32)
  refine ⟨Sample.resolve_rings, ?_, ?_⟩
  · rw [← hcontains, Bool.not_eq_true]
    cbv
  · rw [← hcontains]
    cbv

end Schemata
