import Schemata.Proofs.Codec.Soundness
import Schemata.Proofs.Resolve.Cycle

/-!
# Nothing decodes as a declaration that needs itself

A document that decodes as a type or tuple has a smaller document inside it for
each type or tuple that is needed.  Along a cycle of needs the documents would
get smaller for ever, so no document decodes as a declaration that leads to a
cycle, however large it is.

**Results.** `Accepts.forces`, `not_accepts_of_reach`, `decode_error_of_warned`.
-/

namespace Schemata

theorem Json.sizeOf_lt_of_mem_inner
    {document part : Json}
    (h : part ∈ document.inner) :
    sizeOf part < sizeOf document := by
  cases document with
  | array items =>
      have hlt : sizeOf part < sizeOf items := List.sizeOf_lt_of_mem h
      simp only [Json.array.sizeOf_spec]
      omega
  | object entries =>
      obtain ⟨⟨key, value⟩, hentry, rfl⟩ := List.mem_map.mp h
      have hlt := List.sizeOf_lt_of_mem hentry
      simp only [Json.object.sizeOf_spec, Prod.mk.sizeOf_spec] at hlt ⊢
      omega
  | null | bool b | integer n | float d | string text =>
      cases h

namespace Codec

/-- The document decodes as the type, at some place. -/
def Accepts
    (s : Schema)
    (document : Json)
    (type : TypeRef) : Prop :=
  ∃ path v, (view s document).decode s type path = .ok v

section Loops

variable {s : Schema}
variable {path : DocumentPath}

theorem exists_accepts_of_decodeTuple
    {types : List TypeRef}
    {documents : List Json}
    {index : Nat}
    {items : List Value}
    (h : decodeTuple path index types (documents.map (partOf s)) = .ok items)
    {type : TypeRef}
    (htype : type ∈ types) :
    ∃ part ∈ documents, Accepts s part type := by
  induction types generalizing documents index items with
  | nil =>
      cases htype
  | cons first types ih =>
      cases documents with
      | nil =>
          cases h
      | cons d documents =>
          simp only [List.map_cons, decodeTuple, decoder_partOf, bind_eq_ok] at h
          obtain ⟨v, hv, others, hothers, -⟩ := h
          rcases List.mem_cons.mp htype with rfl | htype
          · exact ⟨d, List.mem_cons_self, _, v, hv⟩
          · obtain ⟨part, hpart, haccepts⟩ := ih hothers htype
            exact ⟨part, List.mem_cons_of_mem d hpart, haccepts⟩

theorem exists_accepts_of_decodePositions
    {fields : List Field}
    {documents : List Json}
    {index : Nat}
    {slots : List (Option Value)}
    (h : decodePositions path index fields (documents.map (partOf s)) = .ok slots)
    {f : Field}
    (hf : f ∈ fields)
    (hrequired : f.optional = false) :
    ∃ part ∈ documents, Accepts s part f.type := by
  induction fields generalizing documents index slots with
  | nil =>
      cases hf
  | cons g fields ih =>
      cases documents with
      | nil =>
          simp only [List.map_nil, decodePositions] at h
          split at h
          · rename_i hoptional
            simp only [bind_eq_ok] at h
            obtain ⟨others, hothers, -⟩ := h
            rcases List.mem_cons.mp hf with rfl | hf
            · simp [hrequired] at hoptional
            · have hnone : decodePositions path (index + 1) fields
                  (([] : List Json).map (partOf s)) = .ok others := hothers
              exact ih hnone hf
          · cases h
      | cons d documents =>
          simp only [List.map_cons, decodePositions] at h
          split at h
          · rename_i hoptional _
            simp only [bind_eq_ok] at h
            obtain ⟨others, hothers, -⟩ := h
            rcases List.mem_cons.mp hf with rfl | hf
            · simp [hrequired] at hoptional
            · obtain ⟨part, hpart, haccepts⟩ := ih hothers hf
              exact ⟨part, List.mem_cons_of_mem d hpart, haccepts⟩
          · simp only [decoder_partOf, bind_eq_ok] at h
            obtain ⟨v, hv, others, hothers, -⟩ := h
            rcases List.mem_cons.mp hf with rfl | hf
            · exact ⟨d, List.mem_cons_self, _, v, hv⟩
            · obtain ⟨part, hpart, haccepts⟩ := ih hothers hf
              exact ⟨part, List.mem_cons_of_mem d hpart, haccepts⟩

theorem exists_accepts_of_decodeFields
    {entries : List (String × Json)}
    {fields : List Field}
    {slots : List (Option Value)}
    (h : decodeFields path (viewEntries s entries) fields = .ok slots)
    {f : Field}
    (hf : f ∈ fields)
    (hrequired : f.optional = false) :
    ∃ part ∈ entries.map Prod.snd, Accepts s part f.type := by
  induction fields generalizing slots with
  | nil =>
      cases hf
  | cons g fields ih =>
      simp only [decodeFields] at h
      split at h
      · rename_i part hpart
        obtain ⟨d, hlookup, rfl⟩ := lookup_of_present? hpart
        simp only [decoder_partOf, bind_eq_ok] at h
        obtain ⟨v, hv, others, hothers, -⟩ := h
        rcases List.mem_cons.mp hf with rfl | hf
        · exact ⟨d, mem_of_lookup hlookup, _, v, hv⟩
        · exact ih hothers hf
      · split at h
        · rename_i hoptional
          simp only [bind_eq_ok] at h
          obtain ⟨others, hothers, -⟩ := h
          rcases List.mem_cons.mp hf with rfl | hf
          · simp [hrequired] at hoptional
          · exact ih hothers hf
        · cases h

end Loops

section Descent

variable {s : Schema}

/-- Inside a document of a tuple is a document of each of its items. -/
theorem Accepts.item
    {document : Json}
    {types : List TypeRef}
    (h : Accepts s document (.tuple types))
    {type : TypeRef}
    (htype : type ∈ types) :
    ∃ part ∈ document.inner, Accepts s part type := by
  obtain ⟨path, v, hdecode⟩ := h
  simp only [View.decode, bind_eq_ok] at hdecode
  obtain ⟨parts, hparts, items, hitems, -⟩ := hdecode
  obtain ⟨documents, rfl, rfl⟩ := eq_array_of_asArray hparts
  exact exists_accepts_of_decodeTuple hitems htype

/-- Inside a document of a type or tuple is a document of each of its required fields. -/
theorem Accepts.field
    {document : Json}
    {d : DeclId}
    (h : Accepts s document (.decl d))
    (hd : s.IsStruct d)
    {f : Field}
    (hf : f ∈ (s.decl d).fields)
    (hrequired : f.optional = false) :
    ∃ part ∈ document.inner, Accepts s part f.type := by
  obtain ⟨path, v, hdecode⟩ := h
  simp only [View.decode, View.decodeDecl] at hdecode
  rcases hd.body_eq with hbody | hbody
  · rw [hbody] at hdecode
    simp only [bind_eq_ok] at hdecode
    obtain ⟨parts, hparts, slots, hslots, -⟩ := hdecode
    obtain ⟨entries, rfl, rfl⟩ := eq_object_of_asObject hparts
    exact exists_accepts_of_decodeFields hslots hf hrequired
  · rw [hbody] at hdecode
    simp only [bind_eq_ok] at hdecode
    obtain ⟨parts, hparts, slots, hslots, -⟩ := hdecode
    obtain ⟨documents, rfl, rfl⟩ := eq_array_of_asArray hparts
    exact exists_accepts_of_decodePositions hslots hf hrequired

/-- A document of a type has, in itself or inside, a document of each declaration that the type
forces. -/
theorem Accepts.forced
    {document : Json}
    {type : TypeRef}
    (h : Accepts s document type)
    {t : DeclId}
    (ht : t ∈ type.forced) :
    ∃ part, sizeOf part ≤ sizeOf document ∧ Accepts s part (.decl t) := by
  induction type using TypeRef.memberInduction generalizing document with
  | primitive p =>
      simp [TypeRef.forced] at ht
  | decl target =>
      rw [TypeRef.forced, List.mem_singleton] at ht
      subst ht
      exact ⟨document, Nat.le_refl _, h⟩
  | array item ih =>
      simp [TypeRef.forced] at ht
  | map key value ihKey ihValue =>
      simp [TypeRef.forced] at ht
  | tuple items ih =>
      obtain ⟨item, hitem, hforced⟩ := (TypeRef.mem_forced_tuple t items).mp ht
      obtain ⟨inner, hinner, haccepts⟩ := h.item hitem
      obtain ⟨part, hle, hpart⟩ := ih item hitem haccepts hforced
      have hlt := Json.sizeOf_lt_of_mem_inner hinner
      exact ⟨part, by omega, hpart⟩

/-- A document of a type or tuple has a smaller document for each type or tuple that is needed. -/
theorem Accepts.forces
    {document : Json}
    {d t : DeclId}
    (h : Accepts s document (.decl d))
    (hforces : s.Forces d t) :
    ∃ part, sizeOf part < sizeOf document ∧ Accepts s part (.decl t) := by
  obtain ⟨f, hf, hrequired, hforced⟩ := hforces.field
  obtain ⟨inner, hinner, haccepts⟩ := h.field hforces.source hf hrequired
  obtain ⟨part, hle, hpart⟩ := haccepts.forced hforced
  have hlt := Json.sizeOf_lt_of_mem_inner hinner
  exact ⟨part, by omega, hpart⟩

theorem Accepts.transGen
    {document : Json}
    {d t : DeclId}
    (h : Accepts s document (.decl d))
    (hreach : Relation.TransGen s.Forces d t) :
    ∃ part, sizeOf part < sizeOf document ∧ Accepts s part (.decl t) := by
  induction hreach with
  | single hforces =>
      exact h.forces hforces
  | tail _ hforces ih =>
      obtain ⟨inner, hinner, haccepts⟩ := ih
      obtain ⟨part, hpart, hresult⟩ := haccepts.forces hforces
      exact ⟨part, by omega, hresult⟩

/-- No document decodes as a declaration that needs itself. -/
theorem not_accepts_of_transGen_self
    {t : DeclId}
    (hcycle : Relation.TransGen s.Forces t t)
    (document : Json) :
    ¬ Accepts s document (.decl t) := by
  -- the measure is the size of the document: a document would have a smaller one inside
  induction hsize : sizeOf document using Nat.strongRecOn generalizing document with
  | ind size ih =>
      intro h
      obtain ⟨part, hlt, hpart⟩ := h.transGen hcycle
      exact ih (sizeOf part) (hsize ▸ hlt) part rfl hpart

/-- No document decodes as a declaration that leads to one that needs itself. -/
theorem not_accepts_of_reach
    {d t : DeclId}
    (hreach : Relation.ReflTransGen s.Forces d t)
    (hcycle : Relation.TransGen s.Forces t t)
    (document : Json) :
    ¬ Accepts s document (.decl d) := by
  intro h
  rcases Relation.reflTransGen_iff_eq_or_transGen.mp hreach with rfl | hreach
  · exact not_accepts_of_transGen_self hcycle document h
  · obtain ⟨part, -, hpart⟩ := h.transGen hreach
    exact not_accepts_of_transGen_self hcycle part hpart

theorem exists_error_of_not_accepts
    {document : Json}
    {type : TypeRef}
    (h : ¬ Accepts s document type) :
    ∃ e, decode s document type = .error e := by
  cases hdecode : decode s document type with
  | error e =>
      exact ⟨e, rfl⟩
  | ok v =>
      exact absurd ⟨[], v, hdecode⟩ h

end Descent

end Codec

/-- Where a warning says that required fields form a cycle, no document of any size and shape decodes
as a declaration of the cycle, or as one that leads to it through required fields. -/
theorem decode_error_of_warning
    {options : ResolveOptions}
    {files : List SourceFile}
    {r : Resolved}
    (h : resolve options files = .ok r)
    {w : RequiredCycle}
    (hw : w ∈ r.warnings) :
    (∃ c, Cycle.Warns r.schema w c) ∧
      ∀ c, Cycle.Warns r.schema w c → ∀ t ∈ c, ∀ d,
        Relation.ReflTransGen r.schema.Requires d t →
        ∀ document, ∃ e, Codec.decode r.schema document (.decl d) = .error e := by
  have hnames := namesExist_of_resolvedFrom (Resolve.resolvedFrom_of_resolve h)
  rw [warnings_of_resolve h] at hw
  refine ⟨(Cycle.exact_of_namesExist hnames).exists_warns hw, ?_⟩
  intro c hc t ht d hreach document
  have hcycle := Schema.transGen_forces (hc.1.transGen_self ht)
  have hreach' := Schema.reach_forces hreach
  exact Codec.exists_error_of_not_accepts (Codec.not_accepts_of_reach hreach' hcycle document)

namespace Sample

theorem isCycle_ring :
    Cycle.IsCycle ringSchema {d | d ∈ [⟨0, 0⟩, ⟨0, 1⟩]} := by
  have hnames := namesExist_of_resolvedFrom (Resolve.resolvedFrom_of_resolve resolve_rings)
  have hcycles : Cycle.cycles ringSchema = [[⟨0, 0⟩, ⟨0, 1⟩], [⟨0, 2⟩]] := by
    cbv
  refine (Cycle.isCycle_iff hnames _).mpr ⟨[⟨0, 0⟩, ⟨0, 1⟩], ?_, rfl⟩
  rw [hcycles]
  exact List.mem_cons_self

theorem warns_ring :
    Cycle.Warns ringSchema ⟨["Key", "Ring", "Key"], ⟨0, 0, 10⟩⟩ {d | d ∈ [⟨0, 0⟩, ⟨0, 1⟩]} := by
  refine ⟨isCycle_ring, _, ?_, rfl, ⟨0, 0⟩, [⟨0, 1⟩], rfl, ?_, rfl⟩
  · simp [Cycle.Before]
  · decide +kernel

theorem requires_key :
    ringSchema.Requires ⟨0, 3⟩ ⟨0, 0⟩ := by
  refine ⟨⟨by decide, Or.inl ⟨_, rfl⟩⟩, ⟨by decide, Or.inl ⟨_, rfl⟩⟩, ?_⟩
  exact ⟨required "key" (.decl ⟨0, 0⟩), List.mem_cons_of_mem _ List.mem_cons_self, rfl, rfl⟩

end Sample

/-- A case needs a key, and keys need themselves, so nothing is a case. -/
theorem decode_error_of_warning_case :
    ⟨["Key", "Ring", "Key"], ⟨0, 0, 10⟩⟩ ∈ Sample.ringWarnings ∧
      ∀ document, ∃ e, Codec.decode Sample.ringSchema document (.decl ⟨0, 3⟩) = .error e := by
  have hwarning : ⟨["Key", "Ring", "Key"], ⟨0, 0, 10⟩⟩ ∈ Sample.ringWarnings :=
    List.mem_cons_self
  obtain ⟨-, hnone⟩ := decode_error_of_warning Sample.resolve_rings hwarning
  exact ⟨hwarning, hnone _ Sample.warns_ring ⟨0, 0⟩ List.mem_cons_self ⟨0, 3⟩
    (.single Sample.requires_key)⟩

end Schemata
