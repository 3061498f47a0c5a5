import Schemata.Proofs.Codec.Object

/-!
# The case that was written is the case that is read

A tag selects the case with its literal, and literals are distinct.  Without a
tag the first case is taken whose required keys are all present.  An earlier
case then requires a key that the written case does not require; the written
case does not have it as an optional one either, so the key is absent and the
earlier case is passed over.  Members of enums are told apart by their values.

**Results.** `taggedCase_of_lookup`, `untaggedCase?_of_check`, `decodeEnum_value`.
-/

namespace Schemata

section First

theorem findIdx?_eq_some_of_first
    {α : Type}
    {p : α → Bool}
    {xs : List α}
    {i : Nat}
    {x : α}
    (hx : xs[i]? = some x)
    (hp : p x = true)
    (hfirst : ∀ j y, j < i → xs[j]? = some y → p y = false) :
    xs.findIdx? p = some i := by
  obtain ⟨hi, rfl⟩ := List.getElem?_eq_some_iff.mp hx
  refine List.findIdx?_eq_some_iff_getElem.mpr ⟨hi, hp, fun j hj hpj => ?_⟩
  have hj' : j < xs.length := Nat.lt_trans hj hi
  rw [hfirst j _ hj (List.getElem?_eq_getElem hj')] at hpj
  exact Bool.false_ne_true hpj

/-- An element with a key of its own is the first one with this key. -/
theorem findIdx?_eq_some_of_nodup
    {α κ : Type}
    {p : α → Bool}
    {key : α → κ}
    {xs : List α}
    {i : Nat}
    {x : α}
    (hx : xs[i]? = some x)
    (hnodup : (xs.map key).Nodup)
    (hp : p x = true)
    (hkey : ∀ y, p y = true → key y = key x) :
    xs.findIdx? p = some i := by
  refine findIdx?_eq_some_of_first hx hp fun j y hj hy => ?_
  by_contra hpy
  have hsame := hkey y (by simpa using hpy)
  have hlt : j < (xs.map key).length := by
    obtain ⟨hlt, -⟩ := List.getElem?_eq_some_iff.mp hy
    simpa using hlt
  have heq : (xs.map key)[j]? = (xs.map key)[i]? := by
    rw [List.getElem?_map, List.getElem?_map, hx, hy, Option.map_some, Option.map_some, hsame]
  have hji := (List.getElem?_inj hlt hnodup).mp heq
  omega

end First

namespace Untagged

variable {body : InterfaceBody}

theorem checkPair_eq_nil_iff
    {earlier later : SubType} :
    checkPair body earlier later = [] ↔
      ∃ key ∈ requiredKeys body earlier, key ∉ requiredKeys body later := by
  have hsubset : subset (requiredKeys body earlier) (requiredKeys body later) = true ↔
      ¬ ∃ key ∈ requiredKeys body earlier, key ∉ requiredKeys body later := by
    simp [subset]
  rw [checkPair, ← not_iff_not, ← hsubset]
  split
  · rename_i hall
    split <;> simp [hall]
  · rename_i hsome
    simp [hsome]

/-- There are no errors of pairs when of any two cases the first one requires a key that the second
one does not. -/
theorem checkPairs_eq_nil_iff
    {cases : List SubType} :
    checkPairs body cases = [] ↔
      cases.Pairwise fun earlier later =>
        ∃ key ∈ requiredKeys body earlier, key ∉ requiredKeys body later := by
  induction cases with
  | nil =>
      simp [checkPairs]
  | cons c cases ih =>
      rw [checkPairs, List.append_eq_nil_iff, List.flatMap_eq_nil_iff, ih, List.pairwise_cons]
      simp only [checkPair_eq_nil_iff]

/-- A case does not have as optional what another one requires. -/
theorem jsonName_ne_of_checkOptional
    (h : checkOptional body = [])
    {i j : Nat}
    {c other : SubType}
    (hi : body.subTypes[i]? = some c)
    (hj : body.subTypes[j]? = some other)
    (hne : j ≠ i)
    {f : Field}
    (hf : f ∈ body.fieldsOf c)
    (hoptional : f.optional = true)
    {key : String}
    (hkey : key ∈ requiredKeys body other) :
    f.jsonName ≠ key := by
  rintro rfl
  have hcase := List.flatMap_eq_nil_iff.mp h (c, i) (List.mem_zipIdx_iff_getElem?.mpr hi)
  have hnone := List.filterMap_eq_nil_iff.mp hcase f
    (List.mem_filter.mpr ⟨hf, hoptional⟩)
  rw [Option.map_eq_none_iff, requiring?, Option.map_eq_none_iff, List.find?_eq_none] at hnone
  have hother := hnone (other, j) (List.mem_zipIdx_iff_getElem?.mpr hj)
  simp [hne, hkey] at hother

/-- An earlier case requires a key that documents of a later case do not have. -/
theorem exists_required_of_check
    (h : check body = [])
    {i j : Nat}
    {earlier later : SubType}
    (hj : body.subTypes[j]? = some earlier)
    (hi : body.subTypes[i]? = some later)
    (hlt : j < i) :
    ∃ key ∈ requiredKeys body earlier, ∀ f ∈ body.fieldsOf later, f.jsonName ≠ key := by
  obtain ⟨hpairs, hoptional⟩ := List.append_eq_nil_iff.mp h
  obtain ⟨hltj, hgetj⟩ := List.getElem?_eq_some_iff.mp hj
  obtain ⟨hlti, hgeti⟩ := List.getElem?_eq_some_iff.mp hi
  have hpair := List.pairwise_iff_getElem.mp (checkPairs_eq_nil_iff.mp hpairs) j i hltj hlti hlt
  rw [hgetj, hgeti] at hpair
  obtain ⟨key, hkey, hnot⟩ := hpair
  refine ⟨key, hkey, fun f hf => ?_⟩
  by_cases hf' : f.optional = true
  · exact jsonName_ne_of_checkOptional hoptional hi hj (by omega) hf hf' hkey
  · rintro rfl
    refine hnot (List.mem_map.mpr ⟨f, List.mem_filter.mpr ⟨hf, ?_⟩, rfl⟩)
    simp [Field.isRequired, hf']

end Untagged

namespace Codec

section Cases

variable {s : Schema}
variable {placement : Placement}
variable {body : InterfaceBody}
variable {entries : List (String × Json)}
variable {index : Nat}
variable {c : SubType}

theorem taggedCase_of_lookup
    {tag : String}
    (hc : body.subTypes[index]? = some c)
    (hliterals : (body.subTypes.map (·.literal)).Nodup)
    (htag : entries.lookup tag = some (.string c.literal))
    (path : DocumentPath) :
    taggedCase body tag path (viewEntries s entries) = .ok index := by
  have hpresent : present? (viewEntries s entries) tag = some (partOf s (.string c.literal)) :=
    present?_of_lookup htag (by simp)
  have hfind : body.subTypes.findIdx? (·.literal == c.literal) = some index := by
    refine findIdx?_eq_some_of_nodup hc hliterals (by simp) ?_
    intro d hd
    simpa using hd
  simp only [taggedCase, hpresent, partOf, hfind]

/-- An object with what a case requires, and with no key of another case besides those of this one,
is read as this case. -/
theorem untaggedCase?_of_check
    (hcheck : Untagged.check body = [])
    (hc : body.subTypes[index]? = some c)
    (hrequired : hasRequired body (viewEntries s entries) c = true)
    (hothers : ∀ other ∈ body.subTypes, ∀ f ∈ body.fieldsOf other,
      f.jsonName ∉ (body.fieldsOf c).map (·.jsonName) → entries.lookup f.jsonName = none) :
    untaggedCase? body (viewEntries s entries) = some index := by
  refine findIdx?_eq_some_of_first hc hrequired fun j earlier hlt hj => ?_
  obtain ⟨key, hkey, hnot⟩ := Untagged.exists_required_of_check hcheck hj hc hlt
  obtain ⟨f, hf, rfl⟩ := List.mem_map.mp hkey
  have hown : f.jsonName ∉ (body.fieldsOf c).map (·.jsonName) := by
    rw [List.mem_map]
    rintro ⟨g, hg, heq⟩
    exact hnot g hg heq
  have hmissing : present? (viewEntries s entries) f.jsonName = none :=
    present?_of_lookup_none
      (hothers earlier (List.mem_of_getElem? hj) f (List.mem_filter.mp hf).1 hown)
  rw [hasRequired, List.all_eq_false]
  exact ⟨f, hf, by simp [hmissing]⟩

theorem untaggedCase?_of_carries
    {slots : List (Option Value)}
    (hcheck : Untagged.check body = [])
    (hc : body.subTypes[index]? = some c)
    (hcarries : Carries s placement entries (body.fieldsOf c) slots)
    (hlength : slots.length = (body.fieldsOf c).length)
    (habsent : ∀ f, (f, none) ∈ (body.fieldsOf c).zip slots → f.optional = true)
    (hnull : some (.any .null) ∉ slots)
    (hothers : ∀ key, key ∉ (body.fieldsOf c).map (·.jsonName) → entries.lookup key = none) :
    untaggedCase? body (viewEntries s entries) = some index := by
  refine untaggedCase?_of_check hcheck hc ?_ fun _ _ f _ hf => hothers f.jsonName hf
  rw [hasRequired, List.all_eq_true]
  intro f hf
  obtain ⟨hmem, hrequired⟩ := List.mem_filter.mp hf
  obtain ⟨slot, hslot⟩ := exists_mem_zip hlength.symm hmem
  cases slot with
  | none =>
      simp [Field.isRequired, habsent f hslot] at hrequired
  | some v =>
      obtain ⟨path, document, -, hpresent⟩ := present?_of_carries hcarries hslot hnull
      rw [hpresent]
      rfl

end Cases

section Members

theorem enumMatches_iff
    (m : EnumMember)
    (value : EnumValue) :
    enumMatches (memberDocument value) m = true ↔ m.value = value := by
  cases hm : m.value <;> cases value <;> simp [enumMatches, memberDocument, hm]

theorem isEnumKind_of_admits
    {type : EnumType}
    {value : EnumValue}
    (h : type.Admits value) :
    isEnumKind type (memberDocument value) = true := by
  cases value with
  | string text =>
      obtain rfl := h
      rfl
  | number n =>
      obtain ⟨least, greatest, hrange, -⟩ := h
      cases type with
      | string =>
          cases hrange
      | u32 | u64 | i32 | i64 =>
          rfl

/-- The document of a member of an enum is read as this member. -/
theorem decodeEnum_value
    {s : Schema}
    {id : DeclId}
    {type : EnumType}
    {members : List EnumMember}
    (hmembers : WellFormedEnum type members)
    {member : Nat}
    {m : EnumMember}
    (hm : members[member]? = some m)
    (path : DocumentPath) :
    decodeEnum s id type members (memberDocument m.value) path = .ok (.enum id member) := by
  have hkind := isEnumKind_of_admits (hmembers.admitted m (List.mem_of_getElem? hm))
  have hfind : members.findIdx? (enumMatches (memberDocument m.value)) = some member := by
    refine findIdx?_eq_some_of_nodup hm hmembers.values ?_ ?_
    · exact (enumMatches_iff m m.value).mpr rfl
    · intro other hother
      exact (enumMatches_iff other m.value).mp hother
  simp only [decodeEnum, hkind, if_true, hfind]

end Members

end Codec
end Schemata
