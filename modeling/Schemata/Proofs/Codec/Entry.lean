import Schemata.Proofs.Codec.RoundTrip
import Schemata.Proofs.Codec.Soundness

/-!
# Entries of maps

A map is read entry by entry, and the keys are not compared with each other.
Two texts of a document that spell one number become one key twice.  The
encoder sets the entries of an object one after the other, so that of entries
with one key the first gives the place and the last gives the document.

A document is kept entry by entry when its texts spell different keys, and
only then.  Strings do, and so do numbers that are spelled as the encoder
writes them.

**Results.** `nodup_iff_keysApart`, `writesLast_of_encodeEntries`,
`decode_map_entries`.
-/

namespace Schemata
namespace Codec

section Keys

/-- No two of the texts spell the same key of the type. -/
def KeysApart
    (key : TypeRef)
    (names : List String) : Prop :=
  names.Pairwise fun a b => ∀ k, SpellsKey key a k → ¬ SpellsKey key b k

variable {key : TypeRef}

/-- The keys that texts spell are distinct exactly when the texts spell different keys. -/
theorem nodup_iff_keysApart
    (hkey : key.IsKeyType)
    {names : List String}
    {keys : List Value}
    (h : List.Forall₂ (SpellsKey key) names keys) :
    keys.Nodup ↔ KeysApart key names := by
  have hlength := h.length_eq
  have hspells : ∀ i (hi : i < names.length) (hi' : i < keys.length),
      SpellsKey key names[i] keys[i] := h.get
  unfold List.Nodup KeysApart
  rw [List.pairwise_iff_getElem, List.pairwise_iff_getElem]
  constructor
  · intro hdistinct i j hi hj hij k hk hk'
    have hik := (hspells i hi (by omega)).unique hkey hk
    have hjk := (hspells j hj (by omega)).unique hkey hk'
    exact hdistinct i j (by omega) (by omega) hij (hik.trans hjk.symm)
  · intro hapart i j hi hj hij heq
    have hj' := hspells j (by omega) hj
    rw [← heq] at hj'
    exact hapart i j (by omega) (by omega) hij _ (hspells i (by omega) hi) hj'

theorem keysApart_string
    {names : List String}
    (h : names.Nodup) :
    KeysApart (.primitive .string) names := by
  refine h.imp fun {a b} hne k hk hk' => hne ?_
  cases hk with
  | string name =>
      cases hk' with
      | string =>
          rfl
  | integer hrange =>
      cases hrange

end Keys

section Writing

variable {s : Schema}
variable {placement : Placement}
variable {path : DocumentPath}

/-- Entries of a map are written to an object: their keys are the keys of the object, and under
each key stands the document of the last entry that has it. -/
structure WritesLast
    (s : Schema)
    (placement : Placement)
    (path : DocumentPath)
    (entries : List (Value × Value))
    (written : List (String × Json)) : Prop where
  distinct : (written.map Prod.fst).Nodup
  keys : ∀ name, name ∈ written.map Prod.fst ↔ name ∈ entries.map (keyText ·.1)
  last : ∀ before e after, entries = before ++ e :: after →
    keyText e.1 ∉ after.map (keyText ·.1) →
    ∃ document, encodeAt s placement e.2 (path ++ [PathStep.key (keyText e.1)]) = .ok document ∧
      written.lookup (keyText e.1) = some document

/-- The step of the loop over entries with keys that can be written. -/
theorem exists_of_encodeEntries_cons
    {e : Value × Value}
    {entries : List (Value × Value)}
    (hkey : encodeKey e.1 path = .ok (keyText e.1))
    {object result : List (String × Json)}
    (h : encodeEntries s placement (e :: entries) path object = .ok result) :
    ∃ document,
      encodeAt s placement e.2 (path ++ [PathStep.key (keyText e.1)]) = .ok document ∧
        encodeEntries s placement entries path (Json.insert object (keyText e.1) document) =
          .ok result := by
  obtain ⟨k, v⟩ := e
  obtain ⟨name, document, hname, hdocument, hrest⟩ := encodeEntries_cons_eq_ok.mp h
  obtain rfl := Except.ok.inj (hkey.symm.trans hname)
  exact ⟨document, hdocument, hrest⟩

theorem mem_keys_encodeEntries
    {entries : List (Value × Value)}
    (hkeys : ∀ e ∈ entries, encodeKey e.1 path = .ok (keyText e.1))
    {object result : List (String × Json)}
    (h : encodeEntries s placement entries path object = .ok result)
    (name : String) :
    name ∈ result.map Prod.fst ↔
      name ∈ object.map Prod.fst ∨ name ∈ entries.map (keyText ·.1) := by
  induction entries generalizing object with
  | nil =>
      simp only [encodeEntries, Except.ok.injEq] at h
      simp [h]
  | cons e entries ih =>
      obtain ⟨document, -, hrest⟩ := exists_of_encodeEntries_cons (hkeys e List.mem_cons_self) h
      rw [ih (fun d hd => hkeys d (List.mem_cons_of_mem e hd)) hrest, Json.keys_insert,
        List.map_cons, List.mem_cons]
      split
      · rename_i hmem
        constructor
        · rintro (hobject | hentries)
          · exact Or.inl hobject
          · exact Or.inr (Or.inr hentries)
        · rintro (hobject | rfl | hentries)
          · exact Or.inl hobject
          · exact Or.inl hmem
          · exact Or.inr hentries
      · rw [List.mem_append, List.mem_singleton, or_assoc]

theorem nodup_keys_encodeEntries
    {entries : List (Value × Value)}
    (hkeys : ∀ e ∈ entries, encodeKey e.1 path = .ok (keyText e.1))
    {object result : List (String × Json)}
    (h : encodeEntries s placement entries path object = .ok result)
    (hobject : (object.map Prod.fst).Nodup) :
    (result.map Prod.fst).Nodup := by
  induction entries generalizing object with
  | nil =>
      simp only [encodeEntries, Except.ok.injEq] at h
      exact h ▸ hobject
  | cons e entries ih =>
      obtain ⟨document, -, hrest⟩ := exists_of_encodeEntries_cons (hkeys e List.mem_cons_self) h
      refine ih (fun d hd => hkeys d (List.mem_cons_of_mem e hd)) hrest ?_
      rw [Json.keys_insert]
      split
      · exact hobject
      · rename_i hfresh
        simpa using hobject.concat hfresh

/-- What stands under a key is left alone by entries with other keys. -/
theorem lookup_encodeEntries_of_notMem
    {entries : List (Value × Value)}
    (hkeys : ∀ e ∈ entries, encodeKey e.1 path = .ok (keyText e.1))
    {object result : List (String × Json)}
    (h : encodeEntries s placement entries path object = .ok result)
    {name : String}
    (hname : name ∉ entries.map (keyText ·.1)) :
    result.lookup name = object.lookup name := by
  induction entries generalizing object with
  | nil =>
      simp only [encodeEntries, Except.ok.injEq] at h
      rw [h]
  | cons e entries ih =>
      obtain ⟨document, -, hrest⟩ := exists_of_encodeEntries_cons (hkeys e List.mem_cons_self) h
      rw [List.map_cons, List.mem_cons, not_or] at hname
      rw [ih (fun d hd => hkeys d (List.mem_cons_of_mem e hd)) hrest hname.2, Json.lookup_insert,
        if_neg hname.1]

/-- The last entry with a key is the one that is found under it. -/
theorem exists_lookup_encodeEntries
    {before after : List (Value × Value)}
    {e : Value × Value}
    (hkeys : ∀ d ∈ before ++ e :: after, encodeKey d.1 path = .ok (keyText d.1))
    {object result : List (String × Json)}
    (h : encodeEntries s placement (before ++ e :: after) path object = .ok result)
    (hlast : keyText e.1 ∉ after.map (keyText ·.1)) :
    ∃ document, encodeAt s placement e.2 (path ++ [PathStep.key (keyText e.1)]) = .ok document ∧
      result.lookup (keyText e.1) = some document := by
  induction before generalizing object with
  | nil =>
      obtain ⟨document, hdocument, hrest⟩ :=
        exists_of_encodeEntries_cons (hkeys e List.mem_cons_self) h
      refine ⟨document, hdocument, ?_⟩
      rw [lookup_encodeEntries_of_notMem (fun d hd => hkeys d (List.mem_cons_of_mem e hd)) hrest
        hlast, Json.lookup_insert, if_pos rfl]
  | cons d before ih =>
      obtain ⟨document, -, hrest⟩ := exists_of_encodeEntries_cons (hkeys d List.mem_cons_self) h
      exact ih (fun x hx => hkeys x (List.mem_cons_of_mem d hx)) hrest

theorem writesLast_of_encodeEntries
    {entries : List (Value × Value)}
    (hkeys : ∀ e ∈ entries, encodeKey e.1 path = .ok (keyText e.1))
    {written : List (String × Json)}
    (h : encodeEntries s placement entries path [] = .ok written) :
    WritesLast s placement path entries written where
  distinct := nodup_keys_encodeEntries hkeys h List.nodup_nil
  keys name := by simp [mem_keys_encodeEntries hkeys h]
  last := by
    rintro before e after rfl hlast
    exact exists_lookup_encodeEntries hkeys h hlast

/-- There are as many entries in the object as different keys in the map. -/
theorem WritesLast.length_eq_iff
    {entries : List (Value × Value)}
    {written : List (String × Json)}
    (h : WritesLast s placement path entries written) :
    written.length = entries.length ↔ (entries.map (keyText ·.1)).Nodup := by
  have hperm : (written.map Prod.fst).Perm (entries.map (keyText ·.1)).dedup := by
    refine (List.perm_ext_iff_of_nodup h.distinct (List.nodup_dedup _)).mpr fun name => ?_
    rw [h.keys, List.mem_dedup]
  have hlength : written.length = (entries.map (keyText ·.1)).dedup.length := by
    rw [← hperm.length_eq, List.length_map]
  rw [hlength, ← List.dedup_eq_self]
  constructor
  · intro heq
    refine (List.dedup_sublist _).eq_of_length ?_
    rw [heq, List.length_map]
  · intro heq
    rw [heq, List.length_map]

end Writing

section Maps

variable {s : Schema}
variable {key value : TypeRef}

theorem decode_map_eq_ok_iff
    (hkey : key.IsKeyType)
    {entries : List (String × Json)}
    {path : DocumentPath}
    {v : Value} :
    (view s (.object entries)).decode s (.map key value) path = .ok v ↔
      ∃ decoded, v = .map decoded ∧
        List.Forall₂ (ReadsEntry s key value path) entries decoded := by
  simp only [view, View.decode, View.asObject, ok_bind, bind_eq_ok, pure, Except.pure,
    Except.ok.injEq, decodeEntries_eq_ok_iff hkey]
  constructor
  · rintro ⟨decoded, hreads, rfl⟩
    exact ⟨decoded, rfl, hreads⟩
  · rintro ⟨decoded, rfl, hreads⟩
    exact ⟨decoded, hreads, rfl⟩

/-- A map is written to an object that has an entry for each key; when the keys are distinct, these are
the entries of the map in their order. -/
theorem exists_encodeAt_map
    (hs : s.WellFormed)
    {decoded : List (Value × Value)}
    (hv : HasType s (.map decoded) (.map key value))
    (hvalid : (TypeRef.map key value).ValidKeys)
    (placement : Placement)
    (place : DocumentPath) :
    ∃ written, encodeAt s placement (.map decoded) place = .ok (.object written) ∧
      WritesLast s placement place decoded written ∧
      ((decoded.map Prod.fst).Nodup → List.Forall₂
        (fun d w => w.1 = keyText d.1 ∧ ∃ place, encodeAt s placement d.2 place = .ok w.2)
        decoded written) := by
  obtain ⟨document, hencode⟩ := encodeAt_ok hs placement hv hvalid place
  rw [TypeRef.validKeys_map] at hvalid
  cases hv with
  | map hkeyTypes hvalues =>
      have hkeys : ∀ d ∈ decoded, encodeKey d.1 place = .ok (keyText d.1) := fun d hd =>
        encodeKey_ok (hkeyTypes d hd) hvalid.1 place
      have hencode' := hencode
      simp only [encodeAt, bind_eq_ok, pure, Except.pure, Except.ok.injEq] at hencode
      obtain ⟨written, hwritten, rfl⟩ := hencode
      refine ⟨written, hencode', writesLast_of_encodeEntries hkeys hwritten, fun hnodup => ?_⟩
      rw [← nodup_keyText_iff hvalid.1 hkeyTypes] at hnodup
      obtain ⟨shape, rfl, hshape⟩ := encodeEntries_shape hwritten hkeys (by simpa using hnodup)
      exact hshape

end Maps

end Codec

/-- The entries of an object are read one for one, and the keys of the map are distinct exactly when
no two texts spell the same key; this holds for strings, and for keys that are spelled as they are
written.  Written again, the map has one entry for each key, with the document of the last entry that
has it: exactly then as many as the object had, and one for one. -/
theorem decode_map_entries
    {options : ResolveOptions}
    {files : List SourceFile}
    {r : Resolved}
    (hresolve : resolve options files = .ok r)
    {key value : TypeRef}
    (htype : (TypeRef.map key value).Over r.schema)
    {entries : List (String × Json)}
    (hdistinct : (entries.map Prod.fst).Nodup)
    (hdocument : (Json.object entries).Standard)
    {path : DocumentPath}
    {v : Value}
    (h : (Codec.view r.schema (.object entries)).decode r.schema (.map key value) path = .ok v) :
    ∃ decoded, v = .map decoded ∧
      List.Forall₂ (Codec.ReadsEntry r.schema key value path) entries decoded ∧
      ((decoded.map Prod.fst).Nodup ↔ Codec.KeysApart key (entries.map Prod.fst)) ∧
      (key = .primitive .string ∨ decoded.map (Codec.keyText ·.1) = entries.map Prod.fst →
        Codec.KeysApart key (entries.map Prod.fst)) ∧
      ∀ placement place, ∃ written,
        Codec.encodeAt r.schema placement v place = .ok (.object written) ∧
          Codec.WritesLast r.schema placement place decoded written ∧
          (written.length = entries.length ↔ Codec.KeysApart key (entries.map Prod.fst)) ∧
          (Codec.KeysApart key (entries.map Prod.fst) →
            List.Forall₂
              (fun d w => w.1 = Codec.keyText d.1 ∧
                ∃ place, Codec.encodeAt r.schema placement d.2 place = .ok w.2)
              decoded written) := by
  have hs := (Resolve.resolvedFrom_of_resolve hresolve).wellFormed
  have hv := Codec.sound_of_standard hs hdocument _ htype.keys path v h
  have hkeys := htype.keys
  rw [TypeRef.validKeys_map] at hkeys
  have hkey := hkeys.1
  obtain ⟨decoded, rfl, hreads⟩ := (Codec.decode_map_eq_ok_iff hkey).mp h
  have hspells : List.Forall₂ (Codec.SpellsKey key) (entries.map Prod.fst)
      (decoded.map Prod.fst) := by
    rw [List.forall₂_map_left_iff, List.forall₂_map_right_iff]
    exact hreads.imp fun e d hed => hed.1
  have hkeyTypes : ∀ d ∈ decoded, HasType r.schema d.1 key := by
    cases hv with
    | map hkeyTypes hvalues =>
        exact hkeyTypes
  have hapart := Codec.nodup_iff_keysApart hkey hspells
  have hnodup := Codec.nodup_keyText_iff hkey hkeyTypes
  refine ⟨decoded, rfl, hreads, hapart, ?_, fun placement place => ?_⟩
  · rintro (rfl | hnames)
    · exact Codec.keysApart_string hdistinct
    · rw [← hapart, ← hnodup, hnames]
      exact hdistinct
  · obtain ⟨written, hencode, hwrites, hshape⟩ :=
      Codec.exists_encodeAt_map hs hv htype.keys placement place
    refine ⟨written, hencode, hwrites, ?_, fun h => hshape (hapart.mpr h)⟩
    rw [hreads.length_eq, hwrites.length_eq_iff, hnodup, hapart]

namespace Sample

/-- Texts under whole numbers, one of them with a plus. -/
def labelEntries : List (String × Json) :=
  [("+7", .string "x"), ("-3", .string "y")]

/-- The map that is read from them. -/
def labels : Value :=
  .map [(.integer 7, .string "x"), (.integer (-3), .string "y")]

theorem labels_over :
    (TypeRef.map (.primitive .i64) (.primitive .string)).Over schema :=
  ⟨by decide, by simp [TypeRef.IsKeyType, Primitive.isInteger, Primitive.range?]⟩

theorem standard_labelEntries :
    (Json.object labelEntries).Standard := by
  refine Json.Standard.intro (by simp) (by simp) ?_
  intro k hk
  simp only [labelEntries, Json.inner, List.map_cons, List.map_nil, List.mem_cons,
    List.not_mem_nil, or_false] at hk
  rcases hk with rfl | rfl
  · exact Json.Standard.intro (by simp) (by simp) (by simp [Json.inner])
  · exact Json.Standard.intro (by simp) (by simp) (by simp [Json.inner])

end Sample

theorem decode_map_entries_labels :
    Codec.KeysApart (.primitive .i64) (Sample.labelEntries.map Prod.fst) ∧
      ∀ placement, ∃ written,
        Codec.encode Sample.schema placement Sample.labels = .ok (.object written) ∧
          written.length = Sample.labelEntries.length := by
  have hdecode : (Codec.view Sample.schema (.object Sample.labelEntries)).decode Sample.schema
      (.map (.primitive .i64) (.primitive .string)) [] = .ok Sample.labels := rfl
  obtain ⟨decoded, hdecoded, -, hapart, -, hwrites⟩ :=
    decode_map_entries Sample.resolve_shapes Sample.labels_over (by decide)
      Sample.standard_labelEntries hdecode
  obtain rfl := Value.map.inj hdecoded
  have hkeys := hapart.mp (by simp)
  refine ⟨hkeys, fun placement => ?_⟩
  obtain ⟨written, hencode, -, hlength, -⟩ := hwrites placement []
  exact ⟨written, hencode, hlength.mpr hkeys⟩

/-- Two spellings of one number become one key twice, and one entry is lost. -/
theorem exists_repeated_key :
    (["7", "07"] : List String).Nodup ∧
      Codec.decode Sample.schema (.object [("7", .string "x"), ("07", .string "y")])
          (.map (.primitive .u32) (.primitive .string)) =
        .ok (.map [(.integer 7, .string "x"), (.integer 7, .string "y")]) ∧
      ∀ placement,
        Codec.encode Sample.schema placement
            (.map [(.integer 7, .string "x"), (.integer 7, .string "y")]) =
          .ok (.object [("7", .string "y")]) := by
  refine ⟨by decide, rfl, fun placement => ?_⟩
  cases placement <;> rfl

end Schemata
