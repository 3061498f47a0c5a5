import Schemata.Proofs.Codec.Key
import Schemata.Proofs.Decimal.Finite
import Schemata.Proofs.Resolve.WellFormed

/-!
# What is decoded is a value of the type

Whatever document the decoder accepts, the value that it gives is one of the
type it was asked for, so the encoder accepts the value under both placements
of the tag.  The induction is on the document: types of a schema may mention
each other in cycles, while the parts of a document are smaller than the
document.

**Results.** `sound_of_standard`, `decode_sound`.
-/

namespace Schemata
namespace Codec

/-- Every value that the document has for a type is one of the type. -/
def Sound
    (s : Schema)
    (document : Json) : Prop :=
  ∀ type, type.ValidKeys → ∀ path v,
    (view s document).decode s type path = .ok v → HasType s v type

section Scalars

variable {s : Schema}

theorem hasType_of_checkedInteger
    {p : Primitive}
    (hp : p.isInteger = true)
    {n : Int}
    {path : DocumentPath}
    {v : Value}
    (h : checkedInteger p n path = .ok v) :
    HasType s v (.primitive p) := by
  obtain ⟨⟨least, greatest⟩, hrange⟩ := Option.isSome_iff_exists.mp hp
  simp only [checkedInteger, hrange] at h
  split at h
  · cases h
  · obtain rfl := Except.ok.inj h
    exact HasType.integer hrange (by omega) (by omega)

theorem hasType_of_decodePrimitive
    {p : Primitive}
    {document : Json}
    (hdocument : document.Standard)
    {path : DocumentPath}
    {v : Value}
    (h : decodePrimitive p document path = .ok v) :
    HasType s v (.primitive p) := by
  obtain ⟨hinteger, hfloat, -⟩ := hdocument
  cases p with
  | any =>
      obtain rfl := Except.ok.inj h
      exact HasType.any document
  | boolean =>
      cases document with
      | bool b =>
          obtain rfl := Except.ok.inj h
          exact HasType.boolean b
      | null | integer n | float d | string text | array items | object entries =>
          cases h
  | string | datetime | bytes =>
      cases document with
      | string text =>
          obtain rfl := Except.ok.inj h
          exact HasType.string text (by simp)
      | null | bool b | integer n | float d | array items | object entries =>
          cases h
  | float | double =>
      cases document with
      | integer n =>
          obtain rfl := Except.ok.inj h
          have hn := hinteger n rfl
          exact HasType.float (by simp) (Decimal.Double.isFinite_ofInt (by omega))
      | float d =>
          obtain rfl := Except.ok.inj h
          exact HasType.float (by simp) (hfloat d rfl)
      | null | bool b | string text | array items | object entries =>
          cases h
  | u32 | u64 | i32 | i64 =>
      cases document with
      | integer n =>
          exact hasType_of_checkedInteger rfl h
      | null | bool b | float d | string text | array items | object entries =>
          cases h

end Scalars

section Loops

variable {s : Schema}
variable {path : DocumentPath}

theorem hasType_of_decodeItems
    {item : TypeRef}
    (hkeys : item.ValidKeys)
    {documents : List Json}
    (hsound : ∀ d ∈ documents, Sound s d)
    {index : Nat}
    {items : List Value}
    (h : decodeItems item path index (documents.map (partOf s)) = .ok items) :
    ∀ v ∈ items, HasType s v item := by
  induction documents generalizing index items with
  | nil =>
      simp only [List.map_nil, decodeItems, Except.ok.injEq] at h
      subst h
      simp
  | cons d documents ih =>
      simp only [List.map_cons, decodeItems, decoder_partOf, bind_eq_ok, pure, Except.pure,
        Except.ok.injEq] at h
      obtain ⟨first, hfirst, others, hothers, rfl⟩ := h
      have hv := hsound d List.mem_cons_self item hkeys _ first hfirst
      have hrest := ih (fun e he => hsound e (List.mem_cons_of_mem d he)) hothers
      intro v hmem
      rcases List.mem_cons.mp hmem with rfl | hmem
      · exact hv
      · exact hrest v hmem

theorem hasType_of_decodeEntries
    {key value : TypeRef}
    (hkey : key.IsKeyType)
    (hkeys : value.ValidKeys)
    {entries : List (String × Json)}
    (hsound : ∀ d ∈ entries.map Prod.snd, Sound s d)
    {result : List (Value × Value)}
    (h : decodeEntries key value path (viewEntries s entries) = .ok result) :
    ∀ e ∈ result, HasType s e.1 key ∧ HasType s e.2 value := by
  have hreads := (decodeEntries_eq_ok_iff hkey).mp h
  clear h
  induction hreads with
  | nil =>
      simp
  | @cons entry d entries result hentry hrest ih =>
      have hvalue := hsound entry.2 List.mem_cons_self value hkeys _ d.2 hentry.2
      have hothers := ih fun e he => hsound e (List.mem_cons_of_mem entry.2 he)
      intro e hmem
      rcases List.mem_cons.mp hmem with rfl | hmem
      · exact ⟨hentry.1.hasType, hvalue⟩
      · exact hothers e hmem

theorem hasType_of_decodeTuple
    {types : List TypeRef}
    (hkeys : ∀ type ∈ types, type.ValidKeys)
    {documents : List Json}
    (hsound : ∀ d ∈ documents, Sound s d)
    {index : Nat}
    {items : List Value}
    (h : decodeTuple path index types (documents.map (partOf s)) = .ok items) :
    items.length = types.length ∧ ∀ x ∈ items.zip types, HasType s x.1 x.2 := by
  induction types generalizing documents index items with
  | nil =>
      simp only [decodeTuple, Except.ok.injEq] at h
      subst h
      simp
  | cons type types ih =>
      cases documents with
      | nil =>
          cases h
      | cons d documents =>
          simp only [List.map_cons, decodeTuple, decoder_partOf, bind_eq_ok, pure, Except.pure,
            Except.ok.injEq] at h
          obtain ⟨first, hfirst, others, hothers, rfl⟩ := h
          have hv := hsound d List.mem_cons_self type (hkeys type List.mem_cons_self) _ first hfirst
          obtain ⟨hlength, hrest⟩ :=
            ih (fun t ht => hkeys t (List.mem_cons_of_mem type ht))
              (fun e he => hsound e (List.mem_cons_of_mem d he)) hothers
          refine ⟨by simp [hlength], ?_⟩
          intro x hmem
          rcases List.mem_cons.mp hmem with rfl | hmem
          · exact hv
          · exact hrest x hmem

end Loops

section Slots

variable {s : Schema}
variable {path : DocumentPath}

/-- There is a slot for each field; only slots of optional fields are empty, and the others hold
values of the types of their fields. -/
structure Fits
    (s : Schema)
    (fields : List Field)
    (slots : List (Option Value)) : Prop where
  length : slots.length = fields.length
  absent : ∀ f, (f, none) ∈ fields.zip slots → f.optional = true
  present : ∀ f v, (f, some v) ∈ fields.zip slots → HasType s v f.type

theorem fits_nil :
    Fits s [] [] :=
  ⟨rfl, by simp, by simp⟩

theorem Fits.cons_none
    {fields : List Field}
    {slots : List (Option Value)}
    (h : Fits s fields slots)
    {f : Field}
    (hf : f.optional = true) :
    Fits s (f :: fields) (none :: slots) := by
  refine ⟨by simp [h.length], fun g hmem => ?_, fun g v hmem => ?_⟩
  · rcases List.mem_cons.mp hmem with heq | hmem
    · obtain ⟨rfl, -⟩ := Prod.mk.inj heq
      exact hf
    · exact h.absent g hmem
  · rcases List.mem_cons.mp hmem with heq | hmem
    · cases heq
    · exact h.present g v hmem

theorem Fits.cons_some
    {fields : List Field}
    {slots : List (Option Value)}
    (h : Fits s fields slots)
    {f : Field}
    {v : Value}
    (hv : HasType s v f.type) :
    Fits s (f :: fields) (some v :: slots) := by
  refine ⟨by simp [h.length], fun g hmem => ?_, fun g w hmem => ?_⟩
  · rcases List.mem_cons.mp hmem with heq | hmem
    · cases heq
    · exact h.absent g hmem
  · rcases List.mem_cons.mp hmem with heq | hmem
    · cases heq
      exact hv
    · exact h.present g w hmem

theorem fits_of_decodePositions
    {fields : List Field}
    (hkeys : ∀ f ∈ fields, f.type.ValidKeys)
    {documents : List Json}
    (hsound : ∀ d ∈ documents, Sound s d)
    {index : Nat}
    {slots : List (Option Value)}
    (h : decodePositions path index fields (documents.map (partOf s)) = .ok slots) :
    Fits s fields slots := by
  induction fields generalizing documents index slots with
  | nil =>
      simp only [decodePositions, Except.ok.injEq] at h
      subst h
      exact fits_nil
  | cons f fields ih =>
      have hkeys' : ∀ g ∈ fields, g.type.ValidKeys := fun g hg =>
        hkeys g (List.mem_cons_of_mem f hg)
      cases documents with
      | nil =>
          simp only [List.map_nil, decodePositions] at h
          split at h
          · rename_i hf
            simp only [bind_eq_ok, pure, Except.pure, Except.ok.injEq] at h
            obtain ⟨others, hothers, rfl⟩ := h
            have hnone : ∀ d ∈ ([] : List Json), Sound s d := by simp
            exact (ih hkeys' hnone hothers).cons_none hf
          · cases h
      | cons d documents =>
          have hsound' : ∀ e ∈ documents, Sound s e := fun e he =>
            hsound e (List.mem_cons_of_mem d he)
          simp only [List.map_cons, decodePositions] at h
          split at h
          · rename_i hf _
            simp only [bind_eq_ok, pure, Except.pure, Except.ok.injEq] at h
            obtain ⟨others, hothers, rfl⟩ := h
            exact (ih hkeys' hsound' hothers).cons_none hf
          · simp only [decoder_partOf, bind_eq_ok, pure, Except.pure, Except.ok.injEq] at h
            obtain ⟨v, hv, others, hothers, rfl⟩ := h
            exact (ih hkeys' hsound' hothers).cons_some
              (hsound d List.mem_cons_self f.type (hkeys f List.mem_cons_self) _ v hv)

theorem fits_of_decodeFields
    {entries : List (String × Json)}
    (hsound : ∀ d ∈ entries.map Prod.snd, Sound s d)
    {fields : List Field}
    (hkeys : ∀ f ∈ fields, f.type.ValidKeys)
    {slots : List (Option Value)}
    (h : decodeFields path (viewEntries s entries) fields = .ok slots) :
    Fits s fields slots := by
  induction fields generalizing slots with
  | nil =>
      simp only [decodeFields, Except.ok.injEq] at h
      subst h
      exact fits_nil
  | cons f fields ih =>
      have hkeys' : ∀ g ∈ fields, g.type.ValidKeys := fun g hg =>
        hkeys g (List.mem_cons_of_mem f hg)
      simp only [decodeFields] at h
      split at h
      · rename_i part hpart
        obtain ⟨d, hlookup, rfl⟩ := lookup_of_present? hpart
        simp only [decoder_partOf, bind_eq_ok, pure, Except.pure, Except.ok.injEq] at h
        obtain ⟨v, hv, others, hothers, rfl⟩ := h
        exact (ih hkeys' hothers).cons_some
          (hsound d (mem_of_lookup hlookup) f.type (hkeys f List.mem_cons_self) _ v hv)
      · split at h
        · rename_i hf
          simp only [bind_eq_ok, pure, Except.pure, Except.ok.injEq] at h
          obtain ⟨others, hothers, rfl⟩ := h
          exact (ih hkeys' hothers).cons_none hf
        · cases h

end Slots

section Declarations

variable {s : Schema}
variable {document : Json}
variable {path : DocumentPath}

theorem eq_array_of_asArray
    {parts : List Part}
    (h : (view s document).asArray path = .ok parts) :
    ∃ items, document = .array items ∧ parts = items.map (partOf s) := by
  cases document with
  | array items =>
      simp only [view, View.asArray, Except.ok.injEq] at h
      exact ⟨items, rfl, by rw [← h, viewItems_eq_map]⟩
  | null | bool b | integer n | float d | string text | object entries =>
      simp [view, View.asArray, fail] at h

theorem eq_object_of_asObject
    {parts : List (String × Part)}
    (h : (view s document).asObject path = .ok parts) :
    ∃ entries, document = .object entries ∧ parts = viewEntries s entries := by
  cases document with
  | object entries =>
      simp only [view, View.asObject, Except.ok.injEq] at h
      exact ⟨entries, rfl, h.symm⟩
  | null | bool b | integer n | float d | string text | array items =>
      simp [view, View.asObject, fail] at h

/-- The index of a case that a document shows is the index of a case. -/
theorem exists_case_of_tagged
    {body : InterfaceBody}
    {tag : String}
    {entries : List (String × Part)}
    {index : Nat}
    (h : taggedCase body tag path entries = .ok index) :
    ∃ c, body.subTypes[index]? = some c := by
  unfold taggedCase at h
  split at h
  · cases h
  · split at h
    · split at h
      · rename_i found hfind
        obtain rfl := Except.ok.inj h
        obtain ⟨hlt, -⟩ := List.findIdx?_eq_some_iff_getElem.mp hfind
        exact ⟨_, List.getElem?_eq_getElem hlt⟩
      · cases h
    · cases h

theorem hasType_of_decodeCase
    (hs : s.WellFormed)
    {id : DeclId}
    {body : InterfaceBody}
    (hbody : (s.decl id).body = .interface body)
    {index : Nat}
    {c : SubType}
    (hc : body.subTypes[index]? = some c)
    {entries : List (String × Json)}
    (hsound : ∀ d ∈ entries.map Prod.snd, Sound s d)
    {v : Value}
    (h : decodeCase body id index path (viewEntries s entries) = .ok v) :
    HasType s v (.decl id) := by
  have hfields : s.recordFields? id (some index) = some (body.fieldsOf c) := by
    simp only [Schema.recordFields?, hbody, hc, Option.map_some]
  simp only [decodeCase, hc, map_eq_ok] at h
  obtain ⟨slots, hslots, rfl⟩ := h
  have hfits := fits_of_decodeFields hsound (hs.field_validKeys hfields) hslots
  exact HasType.record hfields hfits.length hfits.absent hfits.present

theorem hasType_of_decodeEnum
    {id : DeclId}
    {valueType : EnumType}
    {members : List EnumMember}
    (hbody : (s.decl id).body = .enum valueType members)
    {v : Value}
    (h : decodeEnum s id valueType members document path = .ok v) :
    HasType s v (.decl id) := by
  unfold decodeEnum at h
  split at h
  · split at h
    · rename_i member hfind
      obtain rfl := Except.ok.inj h
      obtain ⟨hlt, -⟩ := List.findIdx?_eq_some_iff_getElem.mp hfind
      exact HasType.enum hbody hlt
    · cases h
  · cases h

theorem hasType_of_decodeDecl
    (hs : s.WellFormed)
    (hsound : ∀ d ∈ document.inner, Sound s d)
    {id : DeclId}
    {v : Value}
    (h : (view s document).decodeDecl s id path = .ok v) :
    HasType s v (.decl id) := by
  unfold View.decodeDecl at h
  cases hbody : (s.decl id).body with
  | type fields =>
      have hfields : s.recordFields? id none = some fields := by
        simp only [Schema.recordFields?, hbody]
      simp only [hbody, bind_eq_ok, pure, Except.pure, Except.ok.injEq] at h
      obtain ⟨parts, hparts, slots, hslots, rfl⟩ := h
      obtain ⟨entries, rfl, rfl⟩ := eq_object_of_asObject hparts
      have hfits := fits_of_decodeFields hsound (hs.field_validKeys hfields) hslots
      exact HasType.record hfields hfits.length hfits.absent hfits.present
  | tuple fields =>
      have hfields : s.recordFields? id none = some fields := by
        simp only [Schema.recordFields?, hbody]
      simp only [hbody, bind_eq_ok, pure, Except.pure, Except.ok.injEq] at h
      obtain ⟨parts, hparts, slots, hslots, rfl⟩ := h
      obtain ⟨items, rfl, rfl⟩ := eq_array_of_asArray hparts
      have hfits := fits_of_decodePositions (hs.field_validKeys hfields) hsound hslots
      exact HasType.record hfields hfits.length hfits.absent hfits.present
  | interface body =>
      simp only [hbody, bind_eq_ok] at h
      obtain ⟨parts, hparts, hcase⟩ := h
      obtain ⟨entries, rfl, rfl⟩ := eq_object_of_asObject hparts
      cases hstrategy : body.strategy with
      | tagged tag =>
          simp only [hstrategy, bind_eq_ok] at hcase
          obtain ⟨index, hindex, hdecode⟩ := hcase
          obtain ⟨c, hc⟩ := exists_case_of_tagged hindex
          exact hasType_of_decodeCase hs hbody hc hsound hdecode
      | untagged =>
          simp only [hstrategy] at hcase
          split at hcase
          · rename_i index hindex
            obtain ⟨hlt, -⟩ := List.findIdx?_eq_some_iff_getElem.mp hindex
            exact hasType_of_decodeCase hs hbody (List.getElem?_eq_getElem hlt) hsound hcase
          · cases hcase
  | enum valueType members =>
      simp only [hbody] at h
      exact hasType_of_decodeEnum hbody h
  | service endpoints =>
      simp only [hbody] at h
      cases h

end Declarations

/-- Documents with standard numbers have only values of the types they are decoded as. -/
theorem sound_of_standard
    {s : Schema}
    (hs : s.WellFormed)
    {document : Json}
    (h : document.Standard) :
    Sound s document := by
  induction h with
  | @intro document hinteger hfloat hinner ih =>
      intro type hkeys path v hdecode
      cases type with
      | primitive p =>
          rw [View.decode, document_view] at hdecode
          exact hasType_of_decodePrimitive (.intro hinteger hfloat hinner) hdecode
      | decl id =>
          rw [View.decode] at hdecode
          exact hasType_of_decodeDecl hs ih hdecode
      | array item =>
          simp only [View.decode, bind_eq_ok, pure, Except.pure, Except.ok.injEq] at hdecode
          obtain ⟨parts, hparts, items, hitems, rfl⟩ := hdecode
          obtain ⟨documents, rfl, rfl⟩ := eq_array_of_asArray hparts
          rw [TypeRef.validKeys_array] at hkeys
          exact HasType.array (hasType_of_decodeItems hkeys ih hitems)
      | map key value =>
          simp only [View.decode, bind_eq_ok, pure, Except.pure, Except.ok.injEq] at hdecode
          obtain ⟨parts, hparts, entries, hentries, rfl⟩ := hdecode
          obtain ⟨documents, rfl, rfl⟩ := eq_object_of_asObject hparts
          rw [TypeRef.validKeys_map] at hkeys
          have htyped := hasType_of_decodeEntries hkeys.1 hkeys.2.2 ih hentries
          exact HasType.map (fun e he => (htyped e he).1) (fun e he => (htyped e he).2)
      | tuple types =>
          simp only [View.decode, bind_eq_ok, pure, Except.pure, Except.ok.injEq] at hdecode
          obtain ⟨parts, hparts, items, hitems, rfl⟩ := hdecode
          obtain ⟨documents, rfl, rfl⟩ := eq_array_of_asArray hparts
          rw [TypeRef.validKeys_tuple] at hkeys
          obtain ⟨hlength, htyped⟩ := hasType_of_decodeTuple hkeys ih hitems
          exact HasType.tuple hlength htyped

end Codec

/-- What is decoded from a document is a value of the type, and it can be encoded under both
placements of the tag. -/
theorem decode_sound
    {options : ResolveOptions}
    {files : List SourceFile}
    {r : Resolved}
    (hresolve : resolve options files = .ok r)
    {type : TypeRef}
    (htype : type.Over r.schema)
    {document : Json}
    (hdocument : document.Standard)
    {v : Value}
    (h : Codec.decode r.schema document type = .ok v) :
    HasType r.schema v type ∧
      ∀ placement, ∃ written, Codec.encode r.schema placement v = .ok written := by
  have hs := (Resolve.resolvedFrom_of_resolve hresolve).wellFormed
  have hv := Codec.sound_of_standard hs hdocument type htype.keys [] v h
  exact ⟨hv, fun placement => Codec.encodeAt_ok hs placement hv htype.keys []⟩

namespace Sample

/-- The document of a point, with a key that no field has. -/
def pointDocument : Json :=
  .object [("label", .bool true), ("x", .integer 3), ("other", .null)]

theorem standard_pointDocument :
    pointDocument.Standard := by
  refine Json.Standard.intro (by simp [pointDocument]) (by simp [pointDocument]) ?_
  intro k hk
  simp only [pointDocument, Json.inner, List.map_cons, List.map_nil, List.mem_cons,
    List.not_mem_nil, or_false] at hk
  rcases hk with rfl | rfl | rfl
  · exact Json.Standard.intro (by simp) (by simp) (by simp [Json.inner])
  · exact Json.Standard.intro (by simp) (by simp) (by simp [Json.inner])
  · exact Json.Standard.intro (by simp) (by simp) (by simp [Json.inner])

end Sample

theorem decode_sound_point :
    HasType Sample.schema
        (.record ⟨0, 0⟩ (some 0) [some (.integer 3), none, some (.any (.bool true))])
        (.decl ⟨0, 0⟩) ∧
      ∀ placement, ∃ written,
        Codec.encode Sample.schema placement
          (.record ⟨0, 0⟩ (some 0) [some (.integer 3), none, some (.any (.bool true))]) =
            .ok written :=
  decode_sound Sample.resolve_shapes ⟨by decide, TypeRef.validKeys_decl _⟩
    Sample.standard_pointDocument rfl

end Schemata
