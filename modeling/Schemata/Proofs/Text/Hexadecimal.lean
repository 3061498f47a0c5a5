import Schemata.Text.Basic
import Mathlib

/-!
# Numbers in base sixteen

A run of hexadecimal digits is read as the number that has these digits in base
sixteen, the first digit being the highest.  The letters among them may be small
or capital, and no other character is a digit.

**Results.** `hexDigits?_eq_some_iff`, `scalar?_eq_some_iff`.
-/

namespace Schemata
namespace Text

/-- A hexadecimal digit, in small or capital letters, and its value. -/
def HexDigit
    (c : Char)
    (value : Nat) : Prop :=
  value < 16 ∧ (c = value.digitChar ∨ c = value.digitChar.toUpper)
deriving Decidable

/-- A run of hexadecimal digits and the number that it writes. -/
def HexNumber
    (cs : List Char)
    (n : Nat) : Prop :=
  ∃ values, List.Forall₂ HexDigit cs values ∧ n = Nat.ofDigits 16 values.reverse

theorem toNat_lt_of_hexValue?
    {c : Char}
    (h : (hexValue? c).isSome = true) :
    c.toNat < 128 := by
  have hf : 'f'.toNat = 102 := rfl
  have hF : 'F'.toNat = 70 := rfl
  have h9 : '9'.toNat = 57 := rfl
  simp only [hexValue?, isDigit, Bool.and_eq_true, decide_eq_true_eq, Char.le_def,
    UInt32.le_iff_toNat_le] at h
  split_ifs at h with hdigit hsmall hcapital
  · exact lt_of_le_of_lt hdigit.2 (by decide)
  · exact lt_of_le_of_lt hsmall.2 (by decide)
  · exact lt_of_le_of_lt hcapital.2 (by decide)
  · cases h

theorem hexValue?_eq_some_iff
    {c : Char}
    {value : Nat} :
    hexValue? c = some value ↔ HexDigit c value := by
  constructor
  · intro h
    have hascii : ∀ n : Fin 128, (hexValue? (Char.ofNat n)).isSome = true →
        HexDigit (Char.ofNat n) ((hexValue? (Char.ofNat n)).getD 0) := by
      decide
    have hsome : (hexValue? c).isSome = true := by
      rw [h]
      rfl
    have hdigit := hascii ⟨c.toNat, toNat_lt_of_hexValue? hsome⟩
    rw [Char.ofNat_toNat] at hdigit
    simpa [h] using hdigit hsome
  · rintro ⟨hlt, hc⟩
    have hvalues : ∀ n : Fin 16, hexValue? (Nat.digitChar n) = some n.val ∧
        hexValue? (Nat.digitChar n).toUpper = some n.val := by
      decide
    obtain ⟨hsmall, hcapital⟩ := hvalues ⟨value, hlt⟩
    rcases hc with rfl | rfl
    · exact hsmall
    · exact hcapital

section Runs

/-- One more digit, which spoils the number if it is none. -/
def hexStep
    (value : Option Nat)
    (c : Char) :
    Option Nat :=
  match value, hexValue? c with
  | some n, some d => some (16 * n + d)
  | _, _ => none

theorem hexStep_some
    (n : Nat)
    (c : Char) :
    hexStep (some n) c = (hexValue? c).map (16 * n + ·) := by
  unfold hexStep
  cases hexValue? c with
  | none => rfl
  | some d => rfl

theorem foldl_hexStep_none
    (cs : List Char) :
    cs.foldl hexStep none = none := by
  induction cs with
  | nil =>
      rfl
  | cons c cs ih =>
      exact ih

/-- Digits behind a number. -/
theorem foldl_hexStep_eq_some_iff
    {cs : List Char}
    {m n : Nat} :
    cs.foldl hexStep (some m) = some n ↔
      ∃ values, List.Forall₂ HexDigit cs values ∧
        n = Nat.ofDigits 16 (values.reverse ++ [m]) := by
  induction cs generalizing m with
  | nil =>
      simp [eq_comm]
  | cons c cs ih =>
      have hshift : ∀ (values : List Nat) (d : Nat),
          Nat.ofDigits 16 (values.reverse ++ [16 * m + d]) =
            Nat.ofDigits 16 ((d :: values).reverse ++ [m]) := by
        intro values d
        simp [Nat.ofDigits_append, Nat.ofDigits_cons, Nat.add_comm]
      rw [List.foldl_cons, hexStep_some]
      cases hvalue : hexValue? c with
      | none =>
          rw [Option.map_none, foldl_hexStep_none]
          refine ⟨fun h => (by cases h), ?_⟩
          rintro ⟨values, hdigits, -⟩
          cases hdigits with
          | cons hdigit _ => cases hvalue.symm.trans (hexValue?_eq_some_iff.mpr hdigit)
      | some d =>
          have hd := hexValue?_eq_some_iff.mp hvalue
          rw [Option.map_some, ih]
          constructor
          · rintro ⟨values, hdigits, rfl⟩
            exact ⟨d :: values, .cons hd hdigits, hshift values d⟩
          · rintro ⟨values, hdigits, rfl⟩
            cases hdigits with
            | @cons _ e _ values hdigit hdigits =>
                obtain rfl := Option.some.inj
                  (hvalue.symm.trans (hexValue?_eq_some_iff.mpr hdigit))
                exact ⟨values, hdigits, (hshift values d).symm⟩

end Runs

theorem hexDigits?_eq_some_iff
    {cs : List Char}
    {n : Nat} :
    hexDigits? cs = some n ↔ HexNumber cs n := by
  have hfold : hexDigits? cs = cs.foldl hexStep (some 0) := rfl
  rw [hfold, foldl_hexStep_eq_some_iff, HexNumber]
  simp [Nat.ofDigits_append]

/-- A number has no other characters than digits. -/
theorem HexNumber.notMem
    {cs : List Char}
    {n : Nat}
    (h : HexNumber cs n)
    {c : Char}
    (hc : hexValue? c = none) :
    c ∉ cs := by
  obtain ⟨values, hdigits, -⟩ := h
  induction hdigits with
  | nil =>
      exact List.not_mem_nil
  | cons hdigit _ ih =>
      refine List.not_mem_cons_of_ne_of_not_mem ?_ ih
      rintro rfl
      cases hc.symm.trans (hexValue?_eq_some_iff.mpr hdigit)

theorem HexNumber.lt
    {cs : List Char}
    {n : Nat}
    (h : HexNumber cs n) :
    n < 16 ^ cs.length := by
  obtain ⟨values, hdigits, rfl⟩ := h
  have hlt : ∀ value ∈ values, value < 14 + 2 := by
    intro value hvalue
    induction hdigits with
    | nil =>
        cases hvalue
    | cons hdigit _ ih =>
        rcases List.mem_cons.mp hvalue with rfl | hvalue
        · exact hdigit.1
        · exact ih hvalue
  have hbound := Nat.ofDigits_lt_base_pow_length' (l := values.reverse)
    fun value hvalue => hlt value (List.mem_reverse.mp hvalue)
  rwa [List.length_reverse, ← hdigits.length_eq] at hbound

theorem exists_scalar?
    {n : Nat}
    (h : n < 0xd800) :
    ∃ c, scalar? n = some c := by
  have hvalid : n.isValidChar := Or.inl h
  exact ⟨_, dif_pos hvalid⟩

theorem scalar?_eq_some_iff
    {n : Nat}
    {c : Char} :
    scalar? n = some c ↔ c.toNat = n := by
  constructor
  · intro h
    unfold scalar? at h
    split at h
    next hvalid =>
      have hof : Char.ofNat n = c := by
        rw [Char.ofNat, dif_pos hvalid]
        exact Option.some.inj h
      rw [← hof, Char.toNat_ofNat, if_pos hvalid]
    next => cases h
  · rintro rfl
    have hvalid : c.toNat.isValidChar := c.valid
    have hchar := Char.ofNat_toNat c
    rw [Char.ofNat, dif_pos hvalid] at hchar
    rw [scalar?, dif_pos hvalid, hchar]

end Text
end Schemata
