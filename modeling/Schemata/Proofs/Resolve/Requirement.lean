import Schemata.Proofs.Resolve.Reference
import Mathlib.Data.Set.Card
import Mathlib.Logic.Relation

/-!
# What a type or tuple needs to have a value

A required field whose type is directly a type or tuple needs a value of it:
`Requires`.  So does a required field with an inline tuple that has the type or
tuple among its items, at any depth of inline tuples: `Forces`.  Arrays, maps
and optional fields can be empty and need nothing.

The two can differ in their cycles: `DirectCycles` says that every cycle of
`Forces` leads to one of `Requires`.

`Schema.NamesExist` says that fields mention declarations of the schema only,
so that following fields never leaves the schema.

**Results.** `Requires.forces`, `Forces.ncard_needs_lt`, `namesExist_of_resolvedFrom`.
-/

namespace Schemata

mutual

/-- The declarations that every value of the type has a value of: the declaration that the type is,
or those of the items of an inline tuple. -/
def TypeRef.forced : TypeRef → List DeclId
  | .decl id => [id]
  | .tuple items => forcedAll items
  | .primitive _ | .array _ | .map _ _ => []

/-- The declarations that values of several types have values of. -/
def TypeRef.forcedAll : List TypeRef → List DeclId
  | [] => []
  | item :: rest => forced item ++ forcedAll rest

end

namespace TypeRef

theorem mem_forcedAll
    (id : DeclId)
    (items : List TypeRef) :
    id ∈ forcedAll items ↔ ∃ item ∈ items, id ∈ item.forced := by
  induction items with
  | nil =>
      simp [forcedAll]
  | cons item items ih =>
      simp [forcedAll, ih]

@[simp] theorem mem_forced_tuple
    (id : DeclId)
    (items : List TypeRef) :
    id ∈ (tuple items).forced ↔ ∃ item ∈ items, id ∈ item.forced := by
  rw [forced, mem_forcedAll]

@[simp] theorem mem_mentioned_array
    (id : DeclId)
    (item : TypeRef) :
    id ∈ (array item).mentioned ↔ id ∈ item.mentioned := by
  simp [mentioned, parts, decl?]

@[simp] theorem mem_mentioned_map
    (id : DeclId)
    (key value : TypeRef) :
    id ∈ (map key value).mentioned ↔ id ∈ key.mentioned ∨ id ∈ value.mentioned := by
  simp only [mentioned, parts, List.filterMap_cons, decl?, List.filterMap_append, List.mem_append]

@[simp] theorem mem_mentioned_tuple
    (id : DeclId)
    (items : List TypeRef) :
    id ∈ (tuple items).mentioned ↔ ∃ item ∈ items, id ∈ item.mentioned := by
  simp only [mentioned, parts, List.filterMap_cons, decl?, List.mem_filterMap, mem_partsList]
  constructor
  · rintro ⟨part, ⟨item, hitem, hpart⟩, hid⟩
    exact ⟨item, hitem, part, hpart, hid⟩
  · rintro ⟨item, hitem, part, hpart, hid⟩
    exact ⟨part, ⟨item, hitem, hpart⟩, hid⟩

mutual

/-- Induction on types, with a hypothesis for each member of a tuple. -/
@[elab_as_elim]
theorem memberInduction
    {motive : TypeRef → Prop}
    (primitive : ∀ p, motive (.primitive p))
    (decl : ∀ id, motive (.decl id))
    (array : ∀ item, motive item → motive (.array item))
    (map : ∀ key value, motive key → motive value → motive (.map key value))
    (tuple : ∀ items, (∀ item ∈ items, motive item) → motive (.tuple items)) :
    ∀ type, motive type
  | .primitive p => primitive p
  | .decl id => decl id
  | .array item => array item (memberInduction primitive decl array map tuple item)
  | .map key value =>
      map key value (memberInduction primitive decl array map tuple key)
        (memberInduction primitive decl array map tuple value)
  | .tuple items => tuple items (membersInduction primitive decl array map tuple items)

theorem membersInduction
    {motive : TypeRef → Prop}
    (primitive : ∀ p, motive (.primitive p))
    (decl : ∀ id, motive (.decl id))
    (array : ∀ item, motive item → motive (.array item))
    (map : ∀ key value, motive key → motive value → motive (.map key value))
    (tuple : ∀ items, (∀ item ∈ items, motive item) → motive (.tuple items)) :
    ∀ items : List TypeRef, ∀ item ∈ items, motive item
  | [], _, hmem => by
      simp at hmem
  | first :: rest, item, hmem => by
      rcases List.mem_cons.mp hmem with heq | hmem
      · rw [heq]
        exact memberInduction primitive decl array map tuple first
      · exact membersInduction primitive decl array map tuple rest item hmem

end

/-- What a type forces, it mentions. -/
theorem mem_mentioned_of_forced
    {id : DeclId}
    {type : TypeRef}
    (h : id ∈ type.forced) :
    id ∈ type.mentioned := by
  induction type using memberInduction with
  | primitive p =>
      simp [forced] at h
  | decl target =>
      simpa [forced, mentioned, parts, decl?] using h
  | array item ih =>
      simp [forced] at h
  | map key value ihKey ihValue =>
      simp [forced] at h
  | tuple items ih =>
      rw [mem_forced_tuple] at h
      obtain ⟨item, hitem, hid⟩ := h
      exact (mem_mentioned_tuple id items).mpr ⟨item, hitem, ih item hitem hid⟩

end TypeRef

namespace Schema

/-- The place of a type or a tuple. -/
def IsStruct
    (s : Schema)
    (id : DeclId) : Prop :=
  id ∈ s.ids ∧
    ((∃ fields, (s.decl id).body = .type fields) ∨ ∃ fields, (s.decl id).body = .tuple fields)

/-- A type or tuple has a required field whose type is directly a type or tuple. -/
structure Requires
    (s : Schema)
    (d t : DeclId) : Prop where
  source : s.IsStruct d
  target : s.IsStruct t
  field : ∃ f ∈ (s.decl d).fields, f.optional = false ∧ f.type = .decl t

/-- A type or tuple has a required field whose type is a type or tuple, directly or as an item of an
inline tuple. -/
structure Forces
    (s : Schema)
    (d t : DeclId) : Prop where
  source : s.IsStruct d
  target : s.IsStruct t
  field : ∃ f ∈ (s.decl d).fields, f.optional = false ∧ t ∈ f.type.forced

/-- Everything that a type or tuple needs, at any depth. -/
def needs
    (s : Schema)
    (d : DeclId) :
    Set DeclId :=
  {t | Relation.TransGen s.Forces d t}

/-- Every cycle of needs leads to a cycle of direct references. -/
def DirectCycles
    (s : Schema) : Prop :=
  ∀ t, Relation.TransGen s.Forces t t →
    ∃ u, Relation.ReflTransGen s.Forces t u ∧ Relation.TransGen s.Requires u u

/-- What is needed inside an inline tuple never leads back. -/
def TuplesOffCycles
    (s : Schema) : Prop :=
  ∀ d t, s.Forces d t → Relation.ReflTransGen s.Forces t d → s.Requires d t

/-- Fields mention declarations of the schema only. -/
def NamesExist
    (s : Schema) : Prop :=
  ∀ id ∈ s.ids, ∀ f ∈ (s.decl id).fields, ∀ t ∈ f.type.mentioned, t ∈ s.ids

variable {s : Schema}

theorem isStruct_iff
    (id : DeclId) :
    s.IsStruct id ↔ id ∈ s.ids ∧ (s.decl id).body.isStruct = true := by
  unfold IsStruct
  cases (s.decl id).body with
  | type fields =>
      simp [DeclBody.isStruct]
  | tuple fields =>
      simp [DeclBody.isStruct]
  | interface body =>
      simp [DeclBody.isStruct]
  | enum valueType members =>
      simp [DeclBody.isStruct]
  | service endpoints =>
      simp [DeclBody.isStruct]

/-- The body of a type or tuple holds its fields. -/
theorem IsStruct.body_eq
    {id : DeclId}
    (h : s.IsStruct id) :
    (s.decl id).body = .type (s.decl id).fields ∨ (s.decl id).body = .tuple (s.decl id).fields := by
  rcases h.2 with ⟨fields, hbody⟩ | ⟨fields, hbody⟩
  · exact Or.inl (by rw [Decl.fields, hbody, DeclBody.fields])
  · exact Or.inr (by rw [Decl.fields, hbody, DeclBody.fields])

theorem Requires.forces
    {d t : DeclId}
    (h : s.Requires d t) :
    s.Forces d t := by
  obtain ⟨f, hf, hrequired, htype⟩ := h.field
  refine ⟨h.source, h.target, f, hf, hrequired, ?_⟩
  rw [htype, TypeRef.forced]
  exact List.mem_singleton_self t

theorem reach_forces
    {d t : DeclId}
    (h : Relation.ReflTransGen s.Requires d t) :
    Relation.ReflTransGen s.Forces d t :=
  h.lift id fun _ _ hedge => hedge.forces

theorem transGen_forces
    {d t : DeclId}
    (h : Relation.TransGen s.Requires d t) :
    Relation.TransGen s.Forces d t :=
  h.lift id fun _ _ hedge => hedge.forces

theorem finite_needs
    (s : Schema)
    (d : DeclId) :
    (s.needs d).Finite := by
  refine (List.finite_toSet s.ids).subset fun t ht => ?_
  obtain ⟨u, -, hedge⟩ := Relation.TransGen.tail'_iff.mp ht
  exact hedge.target.1

/-- What is needed needs less, unless it needs itself. -/
theorem Forces.ncard_needs_lt
    {d t : DeclId}
    (h : s.Forces d t)
    (hacyclic : ¬ Relation.TransGen s.Forces t t) :
    (s.needs t).ncard < (s.needs d).ncard := by
  refine Set.ncard_lt_ncard ?_ (s.finite_needs d)
  refine ⟨fun u hu => Relation.TransGen.head h hu, fun hsub => ?_⟩
  exact hacyclic (hsub (Relation.TransGen.single h))

/-- The places of a schema are distinct. -/
theorem nodup_ids
    (s : Schema) :
    s.ids.Nodup := by
  unfold ids
  rw [List.nodup_flatMap]
  constructor
  · intro package _
    unfold idsOf
    exact List.nodup_range.map fun i j h => (DeclId.mk.inj h).2
  · refine List.nodup_range.imp ?_
    intro a b hne id ha hb
    obtain ⟨i, -, rfl⟩ := List.mem_map.mp ha
    obtain ⟨j, -, heq⟩ := List.mem_map.mp hb
    exact hne (DeclId.mk.inj heq).1.symm

end Schema

section Resolved

/-- Whatever replaces a written type mentions only what its names mean. -/
theorem Reference.Replaces.exists_of_mentioned
    {means : TypeName → DeclId → Prop}
    {written : TypeExpr}
    {found : TypeRef}
    (h : Reference.Replaces means written found)
    {id : DeclId}
    (hid : id ∈ found.mentioned) :
    ∃ name, means name id := by
  induction h with
  | primitive p =>
      simp [TypeRef.mentioned, TypeRef.parts, TypeRef.decl?] at hid
  | @name written target hmeans =>
      simp only [TypeRef.mentioned, TypeRef.parts, List.filterMap_cons, TypeRef.decl?,
        List.filterMap_nil, List.mem_singleton] at hid
      subst hid
      exact ⟨written, hmeans⟩
  | array hitem ih =>
      exact ih ((TypeRef.mem_mentioned_array _ _).mp hid)
  | map hkey hvalue ihKey ihValue =>
      rcases (TypeRef.mem_mentioned_map _ _ _).mp hid with hid | hid
      · exact ihKey hid
      · exact ihValue hid
  | @tuple items found hlength hitems ih =>
      obtain ⟨item, hitem, hid⟩ := (TypeRef.mem_mentioned_tuple _ _).mp hid
      obtain ⟨i, hi⟩ := List.getElem?_of_mem hitem
      have hlt : i < items.length := by
        rw [hlength]
        exact (List.getElem?_eq_some_iff.mp hi).1
      have hmem : (items[i], item) ∈ items.zip found := by
        refine List.mem_of_getElem? (i := i) ?_
        rw [List.getElem?_zip_eq_some]
        exact ⟨List.getElem?_eq_getElem hlt, hi⟩
      exact ih _ hmem hid

theorem Decl.mem_allFields_of_mem_fields
    {d : Decl}
    {f : Field}
    (h : f ∈ d.fields) :
    f ∈ d.allFields := by
  unfold Decl.fields at h
  unfold Decl.allFields
  cases hbody : d.body with
  | interface body =>
      rw [hbody] at h
      exact List.mem_append_left _ h
  | _ =>
      rw [hbody] at h
      exact h

/-- The body of a declaration is written with the types of its fields, those of the cases of an
interface included. -/
theorem Decl.exists_typed_of_field
    {d : Decl}
    {f : Field}
    (h : f ∈ d.allFields) :
    ∃ place, (place, f.type) ∈ d.body.typed := by
  unfold Decl.allFields at h
  cases hbody : d.body with
  | type fields =>
      rw [hbody] at h
      exact ⟨_, List.mem_map_of_mem h⟩
  | tuple fields =>
      rw [hbody] at h
      exact ⟨_, List.mem_map_of_mem h⟩
  | interface body =>
      rw [hbody] at h
      rcases List.mem_append.mp h with hshared | hcase
      · exact ⟨_, List.mem_append_left _ (List.mem_map_of_mem hshared)⟩
      · obtain ⟨c, hc, hf⟩ := List.mem_flatMap.mp hcase
        exact ⟨_, List.mem_append_right _
          (List.mem_flatMap.mpr ⟨c, hc, List.mem_map_of_mem hf⟩)⟩
  | enum valueType members =>
      rw [hbody] at h
      cases h
  | service endpoints =>
      rw [hbody] at h
      cases h

/-- The types of a schema without errors mention declarations of the schema only. -/
theorem mem_ids_of_typed
    {options : ResolveOptions}
    {files : List SourceFile}
    {s : Schema}
    (h : Resolve.ResolvedFrom options files s)
    {id : DeclId}
    (hid : id ∈ s.ids)
    {place : TypePlace}
    {type : TypeRef}
    (htype : (place, type) ∈ (s.decl id).body.typed)
    {t : DeclId}
    (ht : t ∈ type.mentioned) :
    t ∈ s.ids := by
  have hexact := Reference.exact_of_resolvedFrom h
  obtain ⟨d, hd⟩ := hexact.paths id hid
  have htypes := hexact.types id hid d hd
  obtain ⟨i, hi⟩ := List.getElem?_of_mem htype
  obtain ⟨hlt, hget⟩ := List.getElem?_eq_some_iff.mp hi
  have hlt' : i < d.body.typed.length := by
    rw [htypes.length_eq]
    exact hlt
  obtain ⟨-, hreplaces⟩ := htypes.get hlt' hlt
  simp only [List.get_eq_getElem, hget] at hreplaces
  obtain ⟨name, hrefers⟩ := hreplaces.exists_of_mentioned ht
  exact hrefers.1

/-- Fields of a schema without errors mention declarations of the schema only. -/
theorem namesExist_of_resolvedFrom
    {options : ResolveOptions}
    {files : List SourceFile}
    {s : Schema}
    (h : Resolve.ResolvedFrom options files s) :
    s.NamesExist := by
  intro id hid f hf t ht
  obtain ⟨place, hplace⟩ := Decl.exists_typed_of_field (Decl.mem_allFields_of_mem_fields hf)
  exact mem_ids_of_typed h hid hplace ht

end Resolved

end Schemata
