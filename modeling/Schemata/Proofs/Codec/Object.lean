import Schemata.Codec.Decode
import Schemata.Proofs.Codec.Encode

/-!
# What is written to objects is read from them

An encoded record is read by looking up the key of each field.  `Carries` is
what such an object has to satisfy: under the key of a field stands the
document of its slot, or nothing when the slot is empty.  Writing the fields
one after the other establishes it when their keys are distinct, and a tag
that is not the key of a field does not disturb it.

A map is read entry by entry, so here the order counts as well: entries with
distinct keys are written one after the other.

**Results.** `carries_encodeFields`, `decodeFields_of_carries`,
`encodeEntries_shape`.
-/

namespace Schemata

section Insert

theorem Json.lookup_insert
    (entries : List (String × Json))
    (key name : String)
    (document : Json) :
    (Json.insert entries key document).lookup name =
      if name = key then some document else entries.lookup name := by
  induction entries with
  | nil =>
      by_cases hname : name = key
      · simp [Json.insert, hname]
      · have hbeq : (name == key) = false := beq_eq_false_iff_ne.mpr hname
        simp [Json.insert, List.lookup_cons, hbeq, hname]
  | cons e entries ih =>
      obtain ⟨k, d⟩ := e
      by_cases hname : name = k
      · subst hname
        by_cases hk : name = key
        · simp [Json.insert, hk]
        · simp [Json.insert, hk]
      · have hbeq : (name == k) = false := beq_eq_false_iff_ne.mpr hname
        by_cases hk : k = key
        · subst hk
          simp [Json.insert, List.lookup_cons, hbeq, hname]
        · simp only [Json.insert, beq_iff_eq, hk, if_false, List.lookup_cons, hbeq, ih]

/-- A key that is present keeps its place, a new one comes last. -/
theorem Json.keys_insert
    (entries : List (String × Json))
    (key : String)
    (document : Json) :
    (Json.insert entries key document).map Prod.fst =
      if key ∈ entries.map Prod.fst then entries.map Prod.fst
      else entries.map Prod.fst ++ [key] := by
  induction entries with
  | nil =>
      rfl
  | cons e entries ih =>
      obtain ⟨k, d⟩ := e
      by_cases hk : k = key
      · simp [Json.insert, hk]
      · have hne : ¬ key = k := fun heq => hk heq.symm
        simp only [Json.insert, beq_iff_eq, hk, if_false, List.map_cons, ih, List.mem_cons, hne,
          false_or]
        split <;> rfl

/-- A new key comes last. -/
theorem Json.insert_of_notMem
    {entries : List (String × Json)}
    {key : String}
    (h : key ∉ entries.map Prod.fst)
    (document : Json) :
    Json.insert entries key document = entries ++ [(key, document)] := by
  induction entries with
  | nil =>
      rfl
  | cons e entries ih =>
      obtain ⟨k, d⟩ := e
      simp only [List.map_cons, List.mem_cons, not_or] at h
      have hk : ¬ k = key := fun heq => h.1 heq.symm
      simp only [Json.insert, beq_iff_eq, hk, if_false, ih h.2, List.cons_append]

end Insert

namespace Codec

section View

/-- A document with its decoder. -/
def partOf
    (s : Schema)
    (document : Json) :
    Part :=
  ⟨document, (view s document).decode s⟩

@[simp] theorem decoder_partOf
    (s : Schema)
    (document : Json) :
    (partOf s document).decoder = (view s document).decode s :=
  rfl

theorem viewItems_eq_map
    (s : Schema)
    (items : List Json) :
    viewItems s items = items.map (partOf s) := by
  induction items with
  | nil =>
      rw [viewItems, List.map_nil]
  | cons item items ih =>
      rw [viewItems, ih, List.map_cons, partOf]

theorem viewEntries_eq_map
    (s : Schema)
    (entries : List (String × Json)) :
    viewEntries s entries = entries.map fun e => (e.1, partOf s e.2) := by
  induction entries with
  | nil =>
      rw [viewEntries, List.map_nil]
  | cons e entries ih =>
      obtain ⟨key, document⟩ := e
      rw [viewEntries, ih, List.map_cons, partOf]

theorem lookup_viewEntries
    (s : Schema)
    (entries : List (String × Json))
    (key : String) :
    (viewEntries s entries).lookup key = (entries.lookup key).map (partOf s) := by
  induction entries with
  | nil =>
      rw [viewEntries]
      rfl
  | cons e entries ih =>
      obtain ⟨k, document⟩ := e
      rw [viewEntries, List.lookup_cons, List.lookup_cons]
      by_cases hk : key == k
      · simp [hk, partOf]
      · simp [hk, ih]

/-- A view shows the whole document. -/
@[simp] theorem document_view
    (s : Schema)
    (document : Json) :
    (view s document).document = document := by
  cases document with
  | null | bool b | integer n | float d | string text =>
      simp [view, View.document]
  | array items =>
      simp [view, View.document, viewItems_eq_map, Function.comp_def, partOf]
  | object entries =>
      simp [view, View.document, viewEntries_eq_map, Function.comp_def, partOf]

theorem present?_of_lookup
    {s : Schema}
    {entries : List (String × Json)}
    {key : String}
    {document : Json}
    (h : entries.lookup key = some document)
    (hnull : document ≠ .null) :
    present? (viewEntries s entries) key = some (partOf s document) := by
  unfold present?
  rw [lookup_viewEntries, h, Option.map_some]
  cases document with
  | null =>
      exact absurd rfl hnull
  | bool b | integer n | float d | string text | array items | object entries =>
      rfl

theorem present?_of_lookup_none
    {s : Schema}
    {entries : List (String × Json)}
    {key : String}
    (h : entries.lookup key = none) :
    present? (viewEntries s entries) key = none := by
  unfold present?
  rw [lookup_viewEntries, h, Option.map_none]

/-- What is present under a key is not null. -/
theorem lookup_of_present?
    {s : Schema}
    {entries : List (String × Json)}
    {key : String}
    {part : Part}
    (h : present? (viewEntries s entries) key = some part) :
    ∃ document, entries.lookup key = some document ∧ part = partOf s document := by
  unfold present? at h
  rw [lookup_viewEntries] at h
  cases hlookup : entries.lookup key with
  | none =>
      simp [hlookup] at h
  | some document =>
      refine ⟨document, rfl, ?_⟩
      simp only [hlookup, Option.map_some] at h
      split at h
      · cases h
      · exact (Option.some.inj h).symm

theorem mem_of_lookup
    {entries : List (String × Json)}
    {key : String}
    {document : Json}
    (h : entries.lookup key = some document) :
    document ∈ entries.map Prod.snd := by
  obtain ⟨before, after, rfl, -⟩ := List.lookup_eq_some_iff.mp h
  simp

end View

section Fields

variable {s : Schema}
variable {placement : Placement}

/-- Only the document `null` is written as `null`. -/
theorem eq_any_of_encodeAt_eq_null
    {v : Value}
    {path : DocumentPath}
    (h : encodeAt s placement v path = .ok .null) :
    v = .any .null := by
  cases v with
  | boolean b =>
      simp [encodeAt] at h
  | string text =>
      simp [encodeAt] at h
  | integer n =>
      simp only [encodeAt, encodeInteger] at h
      split at h <;> simp [invalid] at h
  | float d =>
      simp only [encodeAt, encodeDouble] at h
      split at h <;> simp [invalid] at h
  | any document =>
      simp only [encodeAt, Except.ok.injEq] at h
      rw [h]
  | array items =>
      simp [encodeAt, bind_eq_ok, pure, Except.pure] at h
  | map entries =>
      simp [encodeAt, bind_eq_ok, pure, Except.pure] at h
  | tuple items =>
      simp [encodeAt, bind_eq_ok, pure, Except.pure] at h
  | record id subType slots =>
      simp only [encodeAt, bind_eq_ok] at h
      obtain ⟨shape, -, hshape⟩ := h
      cases shape with
      | array fields =>
          simp [bind_eq_ok, pure, Except.pure] at hshape
      | object before fields after =>
          cases after <;> simp [bind_eq_ok, pure, Except.pure] at hshape
  | enum id member =>
      simp only [encodeAt, encodeMember] at h
      split at h
      · split at h
        · split at h
          · simp at h
          · simp only [encodeInteger] at h
            split at h <;> simp [invalid] at h
        · simp [invalid] at h
      · simp [invalid] at h

/-- Under the key of each field stands the document of its slot, or nothing for an empty slot. -/
structure Carries
    (s : Schema)
    (placement : Placement)
    (entries : List (String × Json))
    (fields : List Field)
    (slots : List (Option Value)) : Prop where
  present : ∀ f v, (f, some v) ∈ fields.zip slots →
    ∃ path document, encodeAt s placement v path = .ok document ∧
      entries.lookup f.jsonName = some document
  absent : ∀ f, (f, none) ∈ fields.zip slots → entries.lookup f.jsonName = none

theorem Carries.tail
    {entries : List (String × Json)}
    {f : Field}
    {fields : List Field}
    {slot : Option Value}
    {slots : List (Option Value)}
    (h : Carries s placement entries (f :: fields) (slot :: slots)) :
    Carries s placement entries fields slots :=
  ⟨fun g v hmem => h.present g v (List.mem_cons_of_mem _ hmem),
    fun g hmem => h.absent g (List.mem_cons_of_mem _ hmem)⟩

theorem Carries.cons_none
    {entries : List (String × Json)}
    {fields : List Field}
    {slots : List (Option Value)}
    (h : Carries s placement entries fields slots)
    {f : Field}
    (hlookup : entries.lookup f.jsonName = none) :
    Carries s placement entries (f :: fields) (none :: slots) := by
  refine ⟨fun g v hmem => ?_, fun g hmem => ?_⟩
  · rcases List.mem_cons.mp hmem with heq | hmem
    · cases heq
    · exact h.present g v hmem
  · rcases List.mem_cons.mp hmem with heq | hmem
    · obtain ⟨rfl, -⟩ := Prod.mk.inj heq
      exact hlookup
    · exact h.absent g hmem

theorem Carries.cons_some
    {entries : List (String × Json)}
    {fields : List Field}
    {slots : List (Option Value)}
    (h : Carries s placement entries fields slots)
    {f : Field}
    {v : Value}
    {path : DocumentPath}
    {document : Json}
    (hdocument : encodeAt s placement v path = .ok document)
    (hlookup : entries.lookup f.jsonName = some document) :
    Carries s placement entries (f :: fields) (some v :: slots) := by
  refine ⟨fun g w hmem => ?_, fun g hmem => ?_⟩
  · rcases List.mem_cons.mp hmem with heq | hmem
    · cases heq
      exact ⟨path, document, hdocument, hlookup⟩
    · exact h.present g w hmem
  · rcases List.mem_cons.mp hmem with heq | hmem
    · cases heq
    · exact h.absent g hmem

/-- A key that no field has is left alone. -/
theorem lookup_encodeFields_of_notMem
    {path : DocumentPath}
    {fields : List Field}
    {slots : List (Option Value)}
    {object result : List (String × Json)}
    (h : encodeFields s placement slots path fields object = .ok result)
    {key : String}
    (hkey : key ∉ fields.map (·.jsonName)) :
    result.lookup key = object.lookup key := by
  induction fields generalizing slots object with
  | nil =>
      cases slots with
      | nil =>
          simp [encodeFields] at h
          rw [h]
      | cons slot slots =>
          simp [encodeFields] at h
          rw [h]
  | cons f fields ih =>
      simp only [List.map_cons, List.mem_cons, not_or] at hkey
      cases slots with
      | nil =>
          simp [encodeFields] at h
          rw [h]
      | cons slot slots =>
          cases slot with
          | none =>
              simp only [encodeFields] at h
              split at h
              · exact ih h hkey.2
              · cases h
          | some v =>
              obtain ⟨document, -, hrest⟩ := encodeFields_some_eq_ok.mp h
              rw [ih hrest hkey.2, Json.lookup_insert, if_neg hkey.1]

/-- Fields with distinct keys that were not in use are all carried. -/
theorem carries_encodeFields
    {path : DocumentPath}
    {fields : List Field}
    {slots : List (Option Value)}
    {object result : List (String × Json)}
    (h : encodeFields s placement slots path fields object = .ok result)
    (hnodup : (fields.map (·.jsonName)).Nodup)
    (hobject : ∀ f ∈ fields, object.lookup f.jsonName = none) :
    Carries s placement result fields slots := by
  induction fields generalizing slots object with
  | nil =>
      exact ⟨by simp, by simp⟩
  | cons f fields ih =>
      simp only [List.map_cons, List.nodup_cons] at hnodup
      have hother : ∀ g ∈ fields, object.lookup g.jsonName = none :=
        fun g hg => hobject g (List.mem_cons_of_mem f hg)
      cases slots with
      | nil =>
          exact ⟨by simp, by simp⟩
      | cons slot slots =>
          cases slot with
          | none =>
              simp only [encodeFields] at h
              split at h
              · refine (ih h hnodup.2 hother).cons_none ?_
                rw [lookup_encodeFields_of_notMem h hnodup.1]
                exact hobject f List.mem_cons_self
              · cases h
          | some v =>
              obtain ⟨document, hdocument, hencode⟩ := encodeFields_some_eq_ok.mp h
              have hfresh : ∀ g ∈ fields,
                  (Json.insert object f.jsonName document).lookup g.jsonName = none := by
                intro g hg
                have hne : g.jsonName ≠ f.jsonName := fun heq =>
                  hnodup.1 (heq ▸ List.mem_map_of_mem hg)
                rw [Json.lookup_insert, if_neg hne]
                exact hother g hg
              refine (ih hencode hnodup.2 hfresh).cons_some hdocument ?_
              rw [lookup_encodeFields_of_notMem hencode hnodup.1, Json.lookup_insert, if_pos rfl]

/-- A key that no field has can be set afterwards. -/
theorem Carries.insert
    {entries : List (String × Json)}
    {fields : List Field}
    {slots : List (Option Value)}
    (h : Carries s placement entries fields slots)
    {key : String}
    (hkey : ∀ f ∈ fields, f.jsonName ≠ key)
    (document : Json) :
    Carries s placement (Json.insert entries key document) fields slots := by
  refine ⟨fun f v hmem => ?_, fun f hmem => ?_⟩
  · obtain ⟨path, d, hd, hlookup⟩ := h.present f v hmem
    refine ⟨path, d, hd, ?_⟩
    rw [Json.lookup_insert, if_neg (hkey f (List.of_mem_zip hmem).1), hlookup]
  · rw [Json.lookup_insert, if_neg (hkey f (List.of_mem_zip hmem).1)]
    exact h.absent f hmem

/-- The value is read back from its document, wherever either stands. -/
def RoundTrips
    (s : Schema)
    (placement : Placement)
    (v : Value)
    (type : TypeRef) : Prop :=
  ∀ path document, encodeAt s placement v path = .ok document →
    ∀ place, (view s document).decode s type place = .ok v

theorem present?_of_carries
    {entries : List (String × Json)}
    {fields : List Field}
    {slots : List (Option Value)}
    (h : Carries s placement entries fields slots)
    {f : Field}
    {v : Value}
    (hmem : (f, some v) ∈ fields.zip slots)
    (hnull : some (.any .null) ∉ slots) :
    ∃ path document, encodeAt s placement v path = .ok document ∧
      present? (viewEntries s entries) f.jsonName = some (partOf s document) := by
  obtain ⟨path, document, hdocument, hlookup⟩ := h.present f v hmem
  refine ⟨path, document, hdocument, present?_of_lookup hlookup ?_⟩
  rintro rfl
  obtain rfl := eq_any_of_encodeAt_eq_null hdocument
  exact hnull (List.of_mem_zip hmem).2

/-- Slots are read back from an object that carries them. -/
theorem decodeFields_of_carries
    {entries : List (String × Json)}
    {fields : List Field}
    {slots : List (Option Value)}
    (h : Carries s placement entries fields slots)
    (hlength : slots.length = fields.length)
    (habsent : ∀ f, (f, none) ∈ fields.zip slots → f.optional = true)
    (hnull : some (.any .null) ∉ slots)
    (hback : ∀ f v, (f, some v) ∈ fields.zip slots → RoundTrips s placement v f.type)
    (path : DocumentPath) :
    decodeFields path (viewEntries s entries) fields = .ok slots := by
  induction fields generalizing slots with
  | nil =>
      obtain rfl := List.length_eq_zero_iff.mp hlength
      rfl
  | cons f fields ih =>
      cases slots with
      | nil =>
          cases hlength
      | cons slot slots =>
          have hrest : decodeFields path (viewEntries s entries) fields = .ok slots :=
            ih h.tail (Nat.succ.inj hlength)
              (fun g hmem => habsent g (List.mem_cons_of_mem _ hmem))
              (fun hmem => hnull (List.mem_cons_of_mem _ hmem))
              (fun g v hmem => hback g v (List.mem_cons_of_mem _ hmem))
          cases slot with
          | none =>
              have hlookup := h.absent f List.mem_cons_self
              simp only [decodeFields, present?_of_lookup_none hlookup,
                habsent f List.mem_cons_self, if_true, hrest]
              rfl
          | some v =>
              obtain ⟨place, document, hdocument, hpart⟩ :=
                present?_of_carries h List.mem_cons_self hnull
              have hvalue := hback f v List.mem_cons_self place document hdocument
              simp only [decodeFields, hpart, partOf, hvalue, hrest]
              rfl

end Fields

section Entries

variable {s : Schema}
variable {placement : Placement}

/-- Entries with distinct keys that were not in use are written in their order. -/
theorem encodeEntries_shape
    {path : DocumentPath}
    {entries : List (Value × Value)}
    {object result : List (String × Json)}
    (h : encodeEntries s placement entries path object = .ok result)
    (hkeys : ∀ e ∈ entries, encodeKey e.1 path = .ok (keyText e.1))
    (hnodup : (object.map Prod.fst ++ entries.map (keyText ·.1)).Nodup) :
    ∃ written : List (String × Json), result = object ++ written ∧
      List.Forall₂
        (fun e w => w.1 = keyText e.1 ∧ ∃ place, encodeAt s placement e.2 place = .ok w.2)
        entries written := by
  induction entries generalizing object with
  | nil =>
      simp only [encodeEntries, Except.ok.injEq] at h
      exact ⟨[], by simp [h], List.Forall₂.nil⟩
  | cons e entries ih =>
      obtain ⟨key, value⟩ := e
      obtain ⟨name, document, hname, hdocument, hrest⟩ := encodeEntries_cons_eq_ok.mp h
      obtain rfl : keyText key = name :=
        Except.ok.inj ((hkeys (key, value) List.mem_cons_self).symm.trans hname)
      have hfresh : keyText key ∉ object.map Prod.fst := by
        intro hmem
        exact (List.nodup_append.mp hnodup).2.2 _ hmem _ List.mem_cons_self rfl
      rw [Json.insert_of_notMem hfresh] at hrest
      obtain ⟨written, hresult, hwritten⟩ :=
        ih hrest (fun e he => hkeys e (List.mem_cons_of_mem _ he)) (by simpa using hnodup)
      refine ⟨(keyText key, document) :: written, by simpa using hresult, ?_⟩
      exact List.Forall₂.cons ⟨rfl, _, hdocument⟩ hwritten

end Entries

end Codec
end Schemata
