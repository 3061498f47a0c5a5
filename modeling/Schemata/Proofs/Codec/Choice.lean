import Schemata.Proofs.Codec.Content

/-!
# Objects of a case are read as this case

The cases of an untagged interface are tried in their order, so an object of a
case could be taken by an earlier one.  The check of untagged interfaces rules
this out, whatever optional keys the object has: of an earlier case it lacks a
required key.

The errors of pairs are not given in vain.  With only the required keys of a
case an object is read as an earlier case exactly when there is such an error.

**Results.**
* `Codec.checkPairs_eq_nil_iff_selects`: pairs without errors are those in which
  the least objects tell the cases apart.
* `decode_untagged`: the check makes the choice unambiguous.
-/

namespace Schemata

namespace InterfaceBody

/-- The object is one of a case.  It has every key that the case requires, with a value; its other
keys are optional ones of the case, or keys of no field of any case. -/
structure IsObjectOf
    (body : InterfaceBody)
    (c : SubType)
    (entries : List (String × Json)) : Prop where
  required : body.HasRequired entries c
  own : ∀ key ∈ entries.map Prod.fst,
    (∃ f ∈ body.fieldsOf c, f.jsonName = key) ∨
      ∀ other ∈ body.subTypes, ∀ f ∈ body.fieldsOf other, f.jsonName ≠ key

/-- An object with the required keys of a case and no others. -/
def leastObject
    (body : InterfaceBody)
    (c : SubType) :
    List (String × Json) :=
  (Untagged.requiredKeys body c).map fun key => (key, .bool true)

variable {body : InterfaceBody}
variable {c d : SubType}

/-- A key of another case, unless it is a key of this case too, is absent. -/
theorem IsObjectOf.lookup_eq_none
    {entries : List (String × Json)}
    (h : body.IsObjectOf c entries)
    (hd : d ∈ body.subTypes)
    {f : Field}
    (hf : f ∈ body.fieldsOf d)
    (hnot : f.jsonName ∉ (body.fieldsOf c).map (·.jsonName)) :
    entries.lookup f.jsonName = none := by
  rw [lookup_eq_none_iff_notMem]
  intro hkey
  rcases h.own f.jsonName hkey with ⟨g, hg, heq⟩ | hforeign
  · exact hnot (List.mem_map.mpr ⟨g, hg, heq⟩)
  · exact hforeign d hd f hf rfl

/-- The least object of a case has what another case requires when the case requires it. -/
theorem hasRequired_leastObject_iff :
    body.HasRequired (body.leastObject c) d ↔
      ∀ key ∈ Untagged.requiredKeys body d, key ∈ Untagged.requiredKeys body c := by
  have hlookup : ∀ (keys : List String) (key : String),
      (∃ document, (keys.map fun k => (k, Json.bool true)).lookup key = some document ∧
        document ≠ .null) ↔ key ∈ keys := by
    intro keys key
    induction keys with
    | nil =>
        simp
    | cons k keys ih =>
        by_cases hk : key = k
        · simp [hk]
        · simp [List.lookup_cons, beq_eq_false_iff_ne.mpr hk, ih, hk]
  simp only [HasRequired, leastObject, hlookup]
  constructor
  · intro h key hkey
    obtain ⟨f, hf, rfl⟩ := List.mem_map.mp hkey
    obtain ⟨hmem, hrequired⟩ := List.mem_filter.mp hf
    exact h f hmem (by simpa [Field.isRequired] using hrequired)
  · intro h f hf hrequired
    refine h f.jsonName (List.mem_map_of_mem (List.mem_filter.mpr ⟨hf, ?_⟩))
    simp [Field.isRequired, hrequired]

end InterfaceBody

namespace Codec

/-- There are no errors of pairs exactly when the least object of each case is read as this case. -/
theorem checkPairs_eq_nil_iff_selects
    (s : Schema)
    (body : InterfaceBody) :
    Untagged.checkPairs body body.subTypes = [] ↔
      ∀ index c, body.subTypes[index]? = some c →
        untaggedCase? body (viewEntries s (body.leastObject c)) = some index := by
  rw [Untagged.checkPairs_eq_nil_iff, List.pairwise_iff_getElem]
  constructor
  · intro hpairs index c hc
    have hself : body.HasRequired (body.leastObject c) c :=
      InterfaceBody.hasRequired_leastObject_iff.mpr fun _ hkey => hkey
    refine findIdx?_eq_some_of_first hc (hasRequired_iff.mpr hself) fun j d hj hd => ?_
    obtain ⟨hlt, rfl⟩ := List.getElem?_eq_some_iff.mp hc
    obtain ⟨hltd, rfl⟩ := List.getElem?_eq_some_iff.mp hd
    obtain ⟨key, hkey, hnot⟩ := hpairs j index hltd hlt hj
    rw [← Bool.not_eq_true, hasRequired_iff, InterfaceBody.hasRequired_leastObject_iff]
    exact fun hall => hnot (hall key hkey)
  · intro hselects i j hi hj hlt
    have hfirst := hselects j _ (List.getElem?_eq_getElem hj)
    obtain ⟨_, _, hearlier⟩ := List.findIdx?_eq_some_iff_getElem.mp hfirst
    by_contra hall
    push Not at hall
    exact hearlier i hlt (hasRequired_iff.mpr (InterfaceBody.hasRequired_leastObject_iff.mpr hall))

end Codec

/-- Where the check of an untagged interface finds no error, the object of a case is read as this
case: with all that the case requires, any of its optional keys and any keys that no case has, the
case is chosen, and its fields are decoded. -/
theorem decode_untagged
    {s : Schema}
    {body : InterfaceBody}
    (hcheck : Untagged.check body = [])
    {index : Nat}
    {c : SubType}
    (hc : body.subTypes[index]? = some c)
    {entries : List (String × Json)}
    (h : body.IsObjectOf c entries) :
    Codec.untaggedCase? body (Codec.viewEntries s entries) = some index ∧
      ∀ id, (s.decl id).body = .interface body → body.strategy = .untagged → ∀ path,
        (Codec.view s (.object entries)).decode s (.decl id) path =
          (Codec.decodeFields path (Codec.viewEntries s entries) (body.fieldsOf c)).map
            (.record id (some index)) := by
  have hchosen : Codec.untaggedCase? body (Codec.viewEntries s entries) = some index :=
    Codec.untaggedCase?_of_check hcheck hc (Codec.hasRequired_iff.mpr h.required)
      fun _ hother _ hf hnot => h.lookup_eq_none hother hf hnot
  refine ⟨hchosen, fun id hbody hstrategy path => ?_⟩
  simp only [Codec.view, Codec.View.decode, Codec.View.decodeDecl, hbody, Codec.View.asObject,
    ok_bind, hstrategy, hchosen, Codec.decodeCase, hc]

namespace Sample

/-- A line with an optional key, a null and a key that shapes do not have. -/
def notedLine : List (String × Json) :=
  [("note", .null), ("marks", .null), ("ends", .array [])]

theorem isObjectOf_notedLine :
    shapeBody.IsObjectOf lineCase notedLine := by
  refine ⟨?_, by decide⟩
  intro f hf hrequired
  rcases List.mem_pair.mp hf with rfl | rfl
  · exact ⟨.array [], rfl, by simp⟩
  · cases hrequired

end Sample

theorem decode_untagged_line :
    Codec.untaggedCase? Sample.shapeBody (Codec.viewEntries Sample.schema Sample.notedLine) =
        some 1 ∧
      Codec.decode Sample.schema (.object Sample.notedLine) (.decl ⟨0, 0⟩) =
        .ok (.record ⟨0, 0⟩ (some 1) [some (.array []), none]) := by
  have hcase : Sample.shapeBody.subTypes[1]? = some Sample.lineCase := rfl
  obtain ⟨hchosen, hdecode⟩ :=
    decode_untagged (s := Sample.schema) (by decide) hcase Sample.isObjectOf_notedLine
  exact ⟨hchosen, (hdecode ⟨0, 0⟩ rfl rfl []).trans rfl⟩

end Schemata
