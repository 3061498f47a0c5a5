import Schemata.Proofs.Codec.Object
import Schemata.Proofs.Text.Digits

/-!
# Keys of maps

A key of a map is a string or a whole number, and in a document it is a text.
A string is its own text.  A whole number is spelled by digits, with a sign in
front or none, so one number has many texts: zeros may precede its digits, a
plus may stand before them, and zero may have either sign.  The encoder writes
one of these texts, and the decoder reads all of them.

**Results.** `spellsInteger_iff`, `decodeKey_eq_ok_iff`, `nodup_keyText_iff`,
`decodeEntries_eq_ok_iff`.
-/

namespace Schemata
namespace Codec

section Spelling

/-- The text is digits of the number, with a sign in front or none. -/
inductive SpellsInteger
    (name : String) :
    Int → Prop
  | plain
      (hdigits : Text.isDigits name.toList = true) :
      SpellsInteger name (Text.digitsValue name.toList)
  | plus
      {digits : List Char}
      (hname : name.toList = '+' :: digits)
      (hdigits : Text.isDigits digits = true) :
      SpellsInteger name (Text.digitsValue digits)
  | minus
      {digits : List Char}
      (hname : name.toList = '-' :: digits)
      (hdigits : Text.isDigits digits = true) :
      SpellsInteger name (-(Text.digitsValue digits : Int))

theorem keyInteger?_of_spells
    {name : String}
    {n : Int}
    (h : SpellsInteger name n)
    (hleast : Number.least ≤ n)
    (hgreatest : n ≤ Number.greatest) :
    keyInteger? name = some n := by
  unfold keyInteger?
  cases h with
  | plain hdigits =>
      split
      rename_i negative digits hsign
      split at hsign
      · rename_i rest hname
        rw [hname] at hdigits
        simp [Text.isDigits, Text.isDigit] at hdigits
      · rename_i rest hname
        rw [hname] at hdigits
        simp [Text.isDigits, Text.isDigit] at hdigits
      · obtain ⟨rfl, rfl⟩ := Prod.mk.inj hsign
        simp [hdigits, hleast, hgreatest]
  | plus hname hdigits =>
      rw [hname]
      simp [hdigits, hleast, hgreatest]
  | minus hname hdigits =>
      rw [hname]
      simp [hdigits, hleast, hgreatest]

theorem spells_of_keyInteger?
    {name : String}
    {n : Int}
    (h : keyInteger? name = some n) :
    SpellsInteger name n := by
  unfold keyInteger? at h
  split at h
  rename_i negative digits hsign
  obtain ⟨hdigits, hvalue⟩ : Text.isDigits digits = true ∧
      (if negative = true then -(Text.digitsValue digits : Int)
        else (Text.digitsValue digits : Int)) = n := by
    simp only [Option.ite_none_right_eq_some, Option.some.injEq] at h
    exact ⟨h.1, h.2.2⟩
  split at hsign
  · rename_i rest hname
    obtain ⟨rfl, rfl⟩ := Prod.mk.inj hsign
    exact hvalue ▸ .minus hname hdigits
  · rename_i rest hname
    obtain ⟨rfl, rfl⟩ := Prod.mk.inj hsign
    exact hvalue ▸ .plus hname hdigits
  · obtain ⟨rfl, rfl⟩ := Prod.mk.inj hsign
    exact hvalue ▸ .plain hdigits

/-- The texts of a number are its digits behind zeros, with a sign in front that fits the number or
none. -/
theorem spellsInteger_iff
    {name : String}
    {n : Int} :
    SpellsInteger name n ↔ ∃ sign zeros,
      name.toList = sign ++ (List.replicate zeros '0' ++ Nat.toDigits 10 n.natAbs) ∧
        (sign = [] ∧ 0 ≤ n ∨ sign = ['+'] ∧ 0 ≤ n ∨ sign = ['-'] ∧ n ≤ 0) := by
  constructor
  · intro h
    cases h with
    | plain hdigits =>
        obtain ⟨zeros, heq⟩ := Text.eq_zeros_append_toDigits hdigits
        exact ⟨[], zeros, heq, Or.inl ⟨rfl, Int.natCast_nonneg _⟩⟩
    | plus hname hdigits =>
        obtain ⟨zeros, heq⟩ := Text.eq_zeros_append_toDigits hdigits
        refine ⟨['+'], zeros, ?_, Or.inr (Or.inl ⟨rfl, Int.natCast_nonneg _⟩)⟩
        rw [hname, Int.natAbs_natCast, ← heq]
        rfl
    | minus hname hdigits =>
        obtain ⟨zeros, heq⟩ := Text.eq_zeros_append_toDigits hdigits
        refine ⟨['-'], zeros, ?_, Or.inr (Or.inr ⟨rfl, by omega⟩)⟩
        rw [hname, Int.natAbs_neg, Int.natAbs_natCast, ← heq]
        rfl
  · rintro ⟨sign, zeros, hname, hsign⟩
    have hdigits := Text.isDigits_zeros_append zeros (Text.isDigits_toDigits n.natAbs)
    have hvalue : Text.digitsValue (List.replicate zeros '0' ++ Nat.toDigits 10 n.natAbs) =
        n.natAbs := by
      rw [Text.digitsValue_zeros_append, Text.digitsValue_toDigits]
    rcases hsign with ⟨rfl, hn⟩ | ⟨rfl, hn⟩ | ⟨rfl, hn⟩
    · rw [List.nil_append] at hname
      have h : SpellsInteger name (Text.digitsValue name.toList) := .plain (hname ▸ hdigits)
      rwa [hname, hvalue, Int.natAbs_of_nonneg hn] at h
    · have h := SpellsInteger.plus (List.singleton_append ▸ hname) hdigits
      rwa [hvalue, Int.natAbs_of_nonneg hn] at h
    · have h := SpellsInteger.minus (List.singleton_append ▸ hname) hdigits
      rwa [hvalue, Int.ofNat_natAbs_of_nonpos hn, Int.neg_neg] at h

/-- The digits of a whole number spell it. -/
theorem spells_toString
    (n : Int) :
    SpellsInteger (toString n) n := by
  rw [spellsInteger_iff]
  rcases Text.toList_toString_int n with ⟨hn, htext⟩ | ⟨hn, htext⟩
  · exact ⟨[], 0, htext, .inl ⟨rfl, hn⟩⟩
  · exact ⟨['-'], 0, htext, .inr (.inr ⟨rfl, hn.le⟩)⟩

end Spelling

section Reading

theorem range_within
    {p : Primitive}
    {least greatest : Int}
    (h : p.range? = some (least, greatest)) :
    Number.least ≤ least ∧ greatest ≤ Number.greatest := by
  obtain ⟨hleast, hgreatest⟩ := range_fits h
  unfold Number.least Number.greatest
  exact ⟨by omega, by omega⟩

theorem checkedInteger_of_range
    {p : Primitive}
    {n least greatest : Int}
    (hrange : p.range? = some (least, greatest))
    (hleast : least ≤ n)
    (hgreatest : n ≤ greatest)
    (path : DocumentPath) :
    checkedInteger p n path = .ok (.integer n) := by
  have hinside : ¬ (n < least ∨ greatest < n) := by omega
  simp only [checkedInteger, hrange, if_neg hinside]

/-- The text of a document spells a key of the type. -/
inductive SpellsKey :
    TypeRef → String → Value → Prop
  | string
      (name : String) :
      SpellsKey (.primitive .string) name (.string name)
  | integer
      {p : Primitive}
      {name : String}
      {n least greatest : Int}
      (hrange : p.range? = some (least, greatest))
      (hleast : least ≤ n)
      (hgreatest : n ≤ greatest)
      (hname : SpellsInteger name n) :
      SpellsKey (.primitive p) name (.integer n)

theorem SpellsKey.hasType
    {s : Schema}
    {key : TypeRef}
    {name : String}
    {k : Value}
    (h : SpellsKey key name k) :
    HasType s k key := by
  cases h with
  | string name =>
      exact .string name (Or.inl rfl)
  | integer hrange hleast hgreatest hname =>
      exact .integer hrange hleast hgreatest

/-- What is read from a text is the key that the text spells. -/
theorem decodeKey_eq_ok_iff
    {key : TypeRef}
    (hkey : key.IsKeyType)
    {name : String}
    {path : DocumentPath}
    {k : Value} :
    decodeKey key name path = .ok k ↔ SpellsKey key name k := by
  constructor
  · intro h
    rcases hkey with rfl | ⟨p, rfl, hp⟩
    · obtain rfl := Except.ok.inj h
      exact .string name
    · obtain ⟨⟨least, greatest⟩, hrange⟩ := Option.isSome_iff_exists.mp hp
      simp only [decodeKey, hp, if_true] at h
      split at h
      · rename_i n hn
        simp only [checkedInteger, hrange] at h
        split at h
        · cases h
        · obtain rfl := Except.ok.inj h
          exact .integer hrange (by omega) (by omega) (spells_of_keyInteger? hn)
      · cases h
  · intro h
    cases h with
    | string name =>
        rfl
    | @integer p name n least greatest hrange hleast hgreatest hname =>
        obtain ⟨hlow, hhigh⟩ := range_within hrange
        have hinteger : p.isInteger = true := by simp [Primitive.isInteger, hrange]
        have hspelled := keyInteger?_of_spells hname (by omega) (by omega)
        simp only [decodeKey, hinteger, if_true, hspelled]
        exact checkedInteger_of_range hrange hleast hgreatest path

/-- The text that is written for a key spells it. -/
theorem spellsKey_keyText
    {s : Schema}
    {v : Value}
    {key : TypeRef}
    (hv : HasType s v key)
    (hkey : key.IsKeyType) :
    SpellsKey key (keyText v) v := by
  rcases hv.key_cases hkey with ⟨rfl, name, rfl⟩ |
    ⟨p, n, least, greatest, rfl, rfl, hrange, hleast, hgreatest⟩
  · exact .string name
  · exact .integer hrange hleast hgreatest (spells_toString n)

/-- A text spells one key of a type at most. -/
theorem SpellsKey.unique
    {key : TypeRef}
    (hkey : key.IsKeyType)
    {name : String}
    {k l : Value}
    (hk : SpellsKey key name k)
    (hl : SpellsKey key name l) :
    k = l := by
  have hdecode : decodeKey key name [] = .ok k := (decodeKey_eq_ok_iff hkey).mpr hk
  rw [(decodeKey_eq_ok_iff hkey).mpr hl] at hdecode
  exact (Except.ok.inj hdecode).symm

/-- Different keys of a type have different texts. -/
theorem keyText_injective
    {s : Schema}
    {key : TypeRef}
    (hkey : key.IsKeyType)
    {k l : Value}
    (hk : HasType s k key)
    (hl : HasType s l key)
    (h : keyText k = keyText l) :
    k = l := by
  have hspelled := spellsKey_keyText hl hkey
  rw [← h] at hspelled
  exact (spellsKey_keyText hk hkey).unique hkey hspelled

theorem nodup_keyText_iff
    {s : Schema}
    {entries : List (Value × Value)}
    {key : TypeRef}
    (hkey : key.IsKeyType)
    (htypes : ∀ e ∈ entries, HasType s e.1 key) :
    (entries.map (keyText ·.1)).Nodup ↔ (entries.map Prod.fst).Nodup := by
  have hmap : entries.map (keyText ·.1) = (entries.map Prod.fst).map keyText := by
    simp [Function.comp_def]
  rw [hmap]
  refine ⟨List.Nodup.of_map keyText, fun hnodup => hnodup.map_on ?_⟩
  intro k hk l hl
  obtain ⟨e, he, rfl⟩ := List.mem_map.mp hk
  obtain ⟨d, hd, rfl⟩ := List.mem_map.mp hl
  exact keyText_injective hkey (htypes e he) (htypes d hd)

end Reading

section Entries

variable {s : Schema}
variable {key value : TypeRef}
variable {path : DocumentPath}

/-- An entry of an object is read as an entry of a map. -/
def ReadsEntry
    (s : Schema)
    (key value : TypeRef)
    (path : DocumentPath)
    (e : String × Json)
    (d : Value × Value) : Prop :=
  SpellsKey key e.1 d.1 ∧ (view s e.2).decode s value (path ++ [PathStep.key e.1]) = .ok d.2

/-- The entries of an object are read one for one. -/
theorem decodeEntries_eq_ok_iff
    (hkey : key.IsKeyType)
    {entries : List (String × Json)}
    {decoded : List (Value × Value)} :
    decodeEntries key value path (viewEntries s entries) = .ok decoded ↔
      List.Forall₂ (ReadsEntry s key value path) entries decoded := by
  induction entries generalizing decoded with
  | nil =>
      simp only [viewEntries, decodeEntries, Except.ok.injEq, List.forall₂_nil_left_iff, eq_comm]
  | cons e entries ih =>
      obtain ⟨name, document⟩ := e
      simp only [viewEntries, decodeEntries, bind_eq_ok, pure, Except.pure, Except.ok.injEq,
        decodeKey_eq_ok_iff hkey, ih, List.forall₂_cons_left_iff, ReadsEntry]
      constructor
      · rintro ⟨k, hk, v, hv, others, hothers, rfl⟩
        exact ⟨(k, v), others, ⟨hk, hv⟩, hothers, rfl⟩
      · rintro ⟨⟨k, v⟩, others, ⟨hk, hv⟩, hothers, rfl⟩
        exact ⟨k, hk, v, hv, others, hothers, rfl⟩

end Entries

end Codec
end Schemata
