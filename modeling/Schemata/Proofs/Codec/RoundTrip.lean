import Schemata.Proofs.Codec.Dispatch
import Schemata.Proofs.Codec.Key
import Schemata.Proofs.Resolve.WellFormed

/-!
# Round trip

A value of a type is encoded to a document from which the decoder reads the
same value, under either placement of the tag.  The proof is by induction on
the typing of the value: each loop of the encoder is undone by a loop of the
decoder, given that the parts are read back.

Objects, cases and members need what the schema promises.  Keys of maps are
read back because what is written for a key spells it.

**Results.** `roundTrips_of_hasType`, `decode_encode`.
-/

namespace Schemata

namespace Codec

section Loops

variable {s : Schema}
variable {placement : Placement}

theorem decodeItems_encodeItems
    {items : List Value}
    {item : TypeRef}
    (hback : ∀ v ∈ items, RoundTrips s placement v item)
    {path : DocumentPath}
    {index : Nat}
    {documents : List Json}
    (h : encodeItems s placement items path index = .ok documents)
    (place : DocumentPath)
    (position : Nat) :
    decodeItems item place position (documents.map (partOf s)) = .ok items := by
  induction items generalizing index documents position with
  | nil =>
      simp only [encodeItems, Except.ok.injEq] at h
      subst h
      rfl
  | cons v items ih =>
      obtain ⟨first, others, hfirst, hothers, rfl⟩ := encodeItems_cons_eq_ok.mp h
      have hv := hback v List.mem_cons_self _ first hfirst (place ++ [PathStep.index position])
      have hrest := ih (fun w hw => hback w (List.mem_cons_of_mem v hw)) hothers (position + 1)
      simp only [List.map_cons, decodeItems, decoder_partOf, hv, hrest, ok_bind]
      rfl

theorem decodeTuple_encodeItems
    {items : List Value}
    {types : List TypeRef}
    (hlength : items.length = types.length)
    (hback : ∀ x ∈ items.zip types, RoundTrips s placement x.1 x.2)
    {path : DocumentPath}
    {index : Nat}
    {documents : List Json}
    (h : encodeItems s placement items path index = .ok documents)
    (place : DocumentPath)
    (position : Nat) :
    decodeTuple place position types (documents.map (partOf s)) = .ok items := by
  induction items generalizing types index documents position with
  | nil =>
      obtain rfl := List.length_eq_zero_iff.mp hlength.symm
      rfl
  | cons v items ih =>
      cases types with
      | nil =>
          cases hlength
      | cons type types =>
          obtain ⟨first, others, hfirst, hothers, rfl⟩ := encodeItems_cons_eq_ok.mp h
          have hv := hback (v, type) List.mem_cons_self _ first hfirst
            (place ++ [PathStep.index position])
          have hrest := ih (Nat.succ.inj hlength)
            (fun x hx => hback x (List.mem_cons_of_mem _ hx)) hothers (position + 1)
          simp only [List.map_cons, decodeTuple, decoder_partOf, hv, hrest, ok_bind]
          rfl

/-- Fields of a tuple are never optional, so each slot is read from its item. -/
theorem decodePositions_encodePositions
    {fields : List Field}
    {slots : List (Option Value)}
    (hlength : slots.length = fields.length)
    (hrequired : ∀ f ∈ fields, f.optional = false)
    (habsent : ∀ f, (f, none) ∈ fields.zip slots → f.optional = true)
    (hback : ∀ f v, (f, some v) ∈ fields.zip slots → RoundTrips s placement v f.type)
    {path : DocumentPath}
    {index : Nat}
    {documents : List Json}
    (h : encodePositions s placement slots path fields index = .ok documents)
    (place : DocumentPath)
    (position : Nat) :
    decodePositions place position fields (documents.map (partOf s)) = .ok slots := by
  induction fields generalizing slots index documents position with
  | nil =>
      obtain rfl := List.length_eq_zero_iff.mp hlength
      rfl
  | cons f fields ih =>
      have hf := hrequired f List.mem_cons_self
      cases slots with
      | nil =>
          cases hlength
      | cons slot slots =>
          cases slot with
          | none =>
              rw [habsent f List.mem_cons_self] at hf
              cases hf
          | some v =>
              obtain ⟨first, others, hfirst, hothers, rfl⟩ := encodePositions_some_eq_ok.mp h
              have hv :=
                hback f v List.mem_cons_self _ first hfirst (place ++ [PathStep.index position])
              have hrest := ih (Nat.succ.inj hlength)
                (fun g hg => hrequired g (List.mem_cons_of_mem f hg))
                (fun g hg => habsent g (List.mem_cons_of_mem _ hg))
                (fun g w hg => hback g w (List.mem_cons_of_mem _ hg)) hothers (position + 1)
              simp only [List.map_cons, decodePositions, decoder_partOf, hf, hv, hrest, ok_bind]
              rfl

theorem decodeEntries_of_shape
    {entries : List (Value × Value)}
    {written : List (String × Json)}
    {key value : TypeRef}
    (hkey : key.IsKeyType)
    (hkeys : ∀ e ∈ entries, HasType s e.1 key)
    (hback : ∀ e ∈ entries, RoundTrips s placement e.2 value)
    (h : List.Forall₂
      (fun e w => w.1 = keyText e.1 ∧ ∃ place, encodeAt s placement e.2 place = .ok w.2)
      entries written)
    (path : DocumentPath) :
    decodeEntries key value path (viewEntries s written) = .ok entries := by
  refine (decodeEntries_eq_ok_iff hkey).mpr ?_
  induction h with
  | nil =>
      exact .nil
  | @cons e w entries written hw hrest ih =>
      obtain ⟨name, document⟩ := w
      obtain ⟨rfl, place, hdocument⟩ := hw
      have hk := spellsKey_keyText (hkeys e List.mem_cons_self) hkey
      have hv := hback e List.mem_cons_self place document hdocument
        (path ++ [PathStep.key (keyText e.1)])
      exact .cons ⟨hk, hv⟩ (ih (fun d hd => hkeys d (List.mem_cons_of_mem e hd))
        (fun d hd => hback d (List.mem_cons_of_mem e hd)))

end Loops

section Records

variable {s : Schema}
variable {placement : Placement}
variable {id : DeclId}
variable {slots : List (Option Value)}

theorem roundTrips_type
    (hs : s.WellFormed)
    {fields : List Field}
    (hbody : (s.decl id).body = .type fields)
    (hlength : slots.length = fields.length)
    (habsent : ∀ f, (f, none) ∈ fields.zip slots → f.optional = true)
    (hnull : some (.any .null) ∉ slots)
    (hback : ∀ f v, (f, some v) ∈ fields.zip slots → RoundTrips s placement v f.type) :
    RoundTrips s placement (.record id none slots) (.decl id) := by
  intro path document h place
  have hwf := (hs.decl id).body
  rw [hbody] at hwf
  have hlayout : layout s placement id none path = .ok (.object [] fields none) := by
    simp only [layout, hbody]
  obtain ⟨entries, hentries, rfl⟩ := (encodeAt_object_layout hlayout hlength).mp h
  have hcarries := carries_encodeFields hentries hwf.jsonNames (by simp)
  have hdecode := decodeFields_of_carries hcarries hlength habsent hnull hback place
  simp only [finish, view, View.decode, View.decodeDecl, hbody, View.asObject, ok_bind, hdecode]
  rfl

theorem roundTrips_tuple
    (hs : s.WellFormed)
    {fields : List Field}
    (hbody : (s.decl id).body = .tuple fields)
    (hlength : slots.length = fields.length)
    (habsent : ∀ f, (f, none) ∈ fields.zip slots → f.optional = true)
    (hback : ∀ f v, (f, some v) ∈ fields.zip slots → RoundTrips s placement v f.type) :
    RoundTrips s placement (.record id none slots) (.decl id) := by
  intro path document h place
  have hwf := (hs.decl id).body
  rw [hbody] at hwf
  have hlayout : layout s placement id none path = .ok (.array fields) := by
    simp only [layout, hbody]
  obtain ⟨documents, hdocuments, rfl⟩ := (encodeAt_array_layout hlayout hlength).mp h
  have hdecode := decodePositions_encodePositions hlength hwf.2 habsent hback hdocuments place 0
  simp only [view, View.decode, View.decodeDecl, hbody, View.asArray, ok_bind,
    viewItems_eq_map, hdecode]
  rfl

/-- The object of a case of an interface carries its fields; it has the literal under the tag, or
without a tag no other keys. -/
theorem exists_entries_of_case
    {body : InterfaceBody}
    {nested : List String}
    (hwf : body.WellFormed nested)
    (hbody : (s.decl id).body = .interface body)
    {index : Nat}
    {c : SubType}
    (hc : body.subTypes[index]? = some c)
    (hlength : slots.length = (body.fieldsOf c).length)
    {path : DocumentPath}
    {document : Json}
    (h : encodeAt s placement (.record id (some index) slots) path = .ok document) :
    ∃ entries, document = .object entries ∧
      Carries s placement entries (body.fieldsOf c) slots ∧
      (∀ tag, body.strategy = .tagged tag →
        entries.lookup tag = some (.string c.literal)) ∧
      (body.strategy = .untagged →
        ∀ key, key ∉ (body.fieldsOf c).map (·.jsonName) → entries.lookup key = none) := by
  have hnodup := (hwf.cases c (List.mem_of_getElem? hc)).jsonNames
  have hlayout : layout s placement id (some index) path = .ok (caseLayout placement body c) := by
    simp only [layout, hbody, hc]
  cases hstrategy : body.strategy with
  | untagged =>
      rw [caseLayout, hstrategy] at hlayout
      obtain ⟨entries, hentries, rfl⟩ := (encodeAt_object_layout hlayout hlength).mp h
      refine ⟨entries, rfl, carries_encodeFields hentries hnodup (by simp), by simp, ?_⟩
      intro _ key hkey
      rw [lookup_encodeFields_of_notMem hentries hkey]
      rfl
  | tagged tag =>
      have hne : ∀ f ∈ body.fieldsOf c, f.jsonName ≠ tag := fun f hf =>
        hwf.tag tag hstrategy f (InterfaceBody.mem_fields_of_mem_fieldsOf hc hf)
      have htag : tag ∉ (body.fieldsOf c).map (·.jsonName) := by
        rw [List.mem_map]
        rintro ⟨f, hf, heq⟩
        exact hne f hf heq
      cases placement with
      | first =>
          rw [caseLayout, hstrategy] at hlayout
          obtain ⟨entries, hentries, rfl⟩ := (encodeAt_object_layout hlayout hlength).mp h
          have hobject : ∀ f ∈ body.fieldsOf c,
              [(tag, Json.string c.literal)].lookup f.jsonName = none := by
            intro f hf
            simp [List.lookup_cons, beq_eq_false_iff_ne.mpr (hne f hf)]
          refine ⟨entries, rfl, carries_encodeFields hentries hnodup hobject, ?_, by simp⟩
          intro tag' heq
          obtain rfl := Strategy.tagged.inj heq
          rw [lookup_encodeFields_of_notMem hentries htag]
          simp
      | last =>
          rw [caseLayout, hstrategy] at hlayout
          obtain ⟨entries, hentries, rfl⟩ := (encodeAt_object_layout hlayout hlength).mp h
          refine ⟨_, rfl, (carries_encodeFields hentries hnodup (by simp)).insert hne _, ?_,
            by simp⟩
          intro tag' heq
          obtain rfl := Strategy.tagged.inj heq
          rw [finish, Json.lookup_insert, if_pos rfl]

theorem roundTrips_case
    (hs : s.WellFormed)
    {body : InterfaceBody}
    (hbody : (s.decl id).body = .interface body)
    {index : Nat}
    {c : SubType}
    (hc : body.subTypes[index]? = some c)
    (hlength : slots.length = (body.fieldsOf c).length)
    (habsent : ∀ f, (f, none) ∈ (body.fieldsOf c).zip slots → f.optional = true)
    (hnull : some (.any .null) ∉ slots)
    (hback : ∀ f v, (f, some v) ∈ (body.fieldsOf c).zip slots →
      RoundTrips s placement v f.type) :
    RoundTrips s placement (.record id (some index) slots) (.decl id) := by
  intro path document h place
  have hwf := (hs.decl id).body
  rw [hbody] at hwf
  obtain ⟨entries, rfl, hcarries, htagged, huntagged⟩ :=
    exists_entries_of_case hwf hbody hc hlength h
  have hdecode := decodeFields_of_carries hcarries hlength habsent hnull hback place
  have hcase : decodeCase body id index place (viewEntries s entries) =
      .ok (.record id (some index) slots) := by
    simp only [decodeCase, hc, hdecode, Except.map]
  simp only [view, View.decode, View.decodeDecl, hbody, View.asObject, ok_bind]
  cases hstrategy : body.strategy with
  | tagged tag =>
      have hindex := taggedCase_of_lookup (s := s) hc hwf.literals (htagged tag hstrategy) place
      simp only [hindex, ok_bind, hcase]
  | untagged =>
      have hindex := untaggedCase?_of_carries (hwf.untagged hstrategy) hc hcarries hlength habsent
        hnull (huntagged hstrategy)
      simp only [hindex, hcase]

end Records

section RoundTrip

variable {s : Schema}

/-- A value of a type in canonical form is read back from its document. -/
theorem roundTrips_of_hasType
    (hs : s.WellFormed)
    (placement : Placement)
    {v : Value}
    {type : TypeRef}
    (hv : HasType s v type) :
    type.ValidKeys → v.Canonical s → RoundTrips s placement v type := by
  induction hv with
  | boolean b =>
      intro _ _ path document h place
      simp only [encodeAt, Except.ok.injEq] at h
      subst h
      simp [View.decode, decodePrimitive]
  | string text hp =>
      intro _ _ path document h place
      simp only [encodeAt, Except.ok.injEq] at h
      subst h
      rcases hp with rfl | rfl | rfl <;> simp [View.decode, decodePrimitive]
  | @integer p n least greatest hrange hleast hgreatest =>
      intro _ _ path document h place
      rw [encodeAt, encodeInteger_of_range hrange hleast hgreatest path] at h
      obtain rfl := Except.ok.inj h
      have hchecked := checkedInteger_of_range hrange hleast hgreatest place
      cases p with
      | u32 | u64 | i32 | i64 =>
          simpa [View.decode, decodePrimitive] using hchecked
      | boolean | string | bytes | datetime | any | float | double =>
          cases hrange
  | float hp hfinite =>
      intro _ _ path document h place
      rw [encodeAt, encodeDouble, if_pos hfinite] at h
      obtain rfl := Except.ok.inj h
      rcases hp with rfl | rfl <;> simp [View.decode, decodePrimitive]
  | any document =>
      intro _ _ path written h place
      simp only [encodeAt, Except.ok.injEq] at h
      subst h
      simp [View.decode, decodePrimitive]
  | array hitems ih =>
      intro hkeys hc path document h place
      rw [TypeRef.validKeys_array] at hkeys
      simp only [encodeAt, bind_eq_ok, pure, Except.pure, Except.ok.injEq] at h
      obtain ⟨documents, hdocuments, rfl⟩ := h
      have hdecode := decodeItems_encodeItems
        (fun v hv => ih v hv hkeys (hc.inner hv)) hdocuments place 0
      simp only [view, View.decode, View.asArray, ok_bind, viewItems_eq_map, hdecode]
      rfl
  | map hkeyTypes hvalues ihKeys ihValues =>
      intro hkeys hc path document h place
      rw [TypeRef.validKeys_map] at hkeys
      simp only [encodeAt, bind_eq_ok, pure, Except.pure, Except.ok.injEq] at h
      obtain ⟨result, hresult, rfl⟩ := h
      have hnodup := (nodup_keyText_iff hkeys.1 hkeyTypes).mpr hc.keys
      obtain ⟨written, rfl, hshape⟩ := encodeEntries_shape hresult
        (fun e he => encodeKey_ok (hkeyTypes e he) hkeys.1 path) (by simpa using hnodup)
      have hdecode := decodeEntries_of_shape hkeys.1 hkeyTypes
        (fun e he => ihValues e he hkeys.2.2 (hc.entry he)) hshape place
      simp only [view, View.decode, View.asObject, ok_bind, hdecode]
      rfl
  | tuple hlength hitems ih =>
      intro hkeys hc path document h place
      rw [TypeRef.validKeys_tuple] at hkeys
      simp only [encodeAt, bind_eq_ok, pure, Except.pure, Except.ok.injEq] at h
      obtain ⟨documents, hdocuments, rfl⟩ := h
      have hdecode := decodeTuple_encodeItems hlength
        (fun x hx => ih x hx (hkeys x.2 (List.of_mem_zip hx).2)
          (hc.inner (List.of_mem_zip hx).1)) hdocuments place 0
      simp only [view, View.decode, View.asArray, ok_bind, viewItems_eq_map, hdecode]
      rfl
  | @record id subType fields slots hfields hlength habsent hpresent ih =>
      intro _ hc
      have hback : ∀ f v, (f, some v) ∈ fields.zip slots → RoundTrips s placement v f.type := by
        intro f v hmem
        obtain ⟨hf, hslot⟩ := List.of_mem_zip hmem
        exact ih f v hmem (hs.field_validKeys hfields f hf) (hc.slot hslot)
      have hnull : s.WritesObject id → some (.any .null) ∉ slots := hc.slots
      rcases Schema.recordFields?_cases hfields with
        ⟨hbody, rfl⟩ | ⟨hbody, rfl⟩ | ⟨body, index, c, hbody, rfl, hindex, rfl⟩
      · exact roundTrips_type hs hbody hlength habsent
          (hnull (by simp [Schema.WritesObject, hbody])) hback
      · exact roundTrips_tuple hs hbody hlength habsent hback
      · exact roundTrips_case hs hbody hindex hlength habsent
          (hnull (by simp [Schema.WritesObject, hbody])) hback
  | @enum id member valueType members hbody hmember =>
      intro _ _ path document h place
      have hwf := (hs.decl id).body
      rw [hbody] at hwf
      rw [encodeMember_ok hs placement hbody hmember path] at h
      obtain rfl := Except.ok.inj h
      simp only [View.decode, View.decodeDecl, hbody, document_view]
      exact decodeEnum_value hwf (List.getElem?_eq_getElem hmember) place

end RoundTrip

end Codec

/-- Every value of every type over a resolved schema is encoded, under either placement of the tag, to
a document from which the same value is decoded. -/
theorem decode_encode
    {options : ResolveOptions}
    {files : List SourceFile}
    {r : Resolved}
    (hresolve : resolve options files = .ok r)
    {type : TypeRef}
    (htype : type.Over r.schema)
    (placement : Placement)
    {v : Value}
    (hv : HasType r.schema v type)
    (hcanonical : v.Canonical r.schema) :
    ∃ document, Codec.encode r.schema placement v = .ok document ∧
      Codec.decode r.schema document type = .ok v := by
  have hs := (Resolve.resolvedFrom_of_resolve hresolve).wellFormed
  obtain ⟨document, hdocument⟩ := Codec.encodeAt_ok hs placement hv htype.keys []
  exact ⟨document, hdocument,
    Codec.roundTrips_of_hasType hs placement hv htype.keys hcanonical [] document hdocument []⟩

namespace Sample

/-- A point. -/
def point : Value :=
  .record ⟨0, 0⟩ (some 0)
    [some (.integer 3), some (.enum ⟨0, 1⟩ 1), some (.any (.string "a"))]

/-- A line with one end and one mark. -/
def line : Value :=
  .record ⟨0, 0⟩ (some 1)
    [some (.array [point]), some (.map [(.integer (-7), .float ⟨0x3FF0000000000000⟩)])]

theorem shape_over :
    (TypeRef.decl ⟨0, 0⟩).Over schema :=
  ⟨by decide, TypeRef.validKeys_decl _⟩

theorem hasType_point :
    HasType schema point (.decl ⟨0, 0⟩) := by
  have hfields : schema.recordFields? ⟨0, 0⟩ (some 0) = some pointFields := rfl
  refine HasType.record hfields rfl (by simp [pointFields]) ?_
  intro f v hmem
  simp only [pointFields, List.zip_cons_cons, List.zip_nil_right, List.mem_cons, Prod.mk.injEq,
    Option.some.injEq, List.not_mem_nil, or_false] at hmem
  rcases hmem with ⟨rfl, rfl⟩ | ⟨rfl, rfl⟩ | ⟨rfl, rfl⟩
  · exact HasType.integer rfl (by decide) (by decide)
  · exact HasType.enum rfl (by decide)
  · exact HasType.any _

theorem hasType_line :
    HasType schema line (.decl ⟨0, 0⟩) := by
  have hfields : schema.recordFields? ⟨0, 0⟩ (some 1) = some lineFields := rfl
  refine HasType.record hfields rfl (by simp [lineFields]) ?_
  intro f v hmem
  simp only [lineFields, List.zip_cons_cons, List.zip_nil_right, List.mem_cons, Prod.mk.injEq,
    Option.some.injEq, List.not_mem_nil, or_false] at hmem
  rcases hmem with ⟨rfl, rfl⟩ | ⟨rfl, rfl⟩
  · refine HasType.array ?_
    simpa using hasType_point
  · refine HasType.map ?_ ?_
    · have h : HasType schema (.integer (-7)) (.primitive .i64) :=
        HasType.integer rfl (by decide) (by decide)
      simpa using h
    · have h : HasType schema (.float ⟨0x3FF0000000000000⟩) (.primitive .double) :=
        HasType.float (Or.inr rfl) (by decide)
      simpa using h

theorem canonical_point :
    point.Canonical schema := by
  refine Value.Canonical.intro (by simp [point]) ?_ ?_
  · rintro id subType slots heq -
    cases heq
    simp
  · intro w hw
    simp only [point, Value.inner, List.filterMap_cons, List.filterMap_nil, id, List.mem_cons,
      List.not_mem_nil, or_false] at hw
    rcases hw with rfl | rfl | rfl
    all_goals exact Value.Canonical.intro (by simp) (by simp) (by simp [Value.inner])

theorem canonical_line :
    line.Canonical schema := by
  refine Value.Canonical.intro (by simp [line]) ?_ ?_
  · rintro id subType slots heq -
    cases heq
    simp
  · intro w hw
    simp only [line, Value.inner, List.filterMap_cons, List.filterMap_nil, id, List.mem_cons,
      List.not_mem_nil, or_false] at hw
    rcases hw with rfl | rfl
    · refine Value.Canonical.intro (by simp) (by simp) ?_
      simpa [Value.inner] using canonical_point
    · refine Value.Canonical.intro (by simp) (by simp) ?_
      intro x hx
      simp only [Value.inner, List.map_cons, List.map_nil, List.cons_append, List.nil_append,
        List.mem_cons, List.not_mem_nil, or_false] at hx
      rcases hx with rfl | rfl
      all_goals exact Value.Canonical.intro (by simp) (by simp) (by simp [Value.inner])

end Sample

theorem decode_encode_line :
    ∃ document, Codec.encode Sample.schema .first Sample.line = .ok document ∧
      Codec.decode Sample.schema document (.decl ⟨0, 0⟩) = .ok Sample.line :=
  decode_encode Sample.resolve_shapes Sample.shape_over .first Sample.hasType_line
    Sample.canonical_line

end Schemata
