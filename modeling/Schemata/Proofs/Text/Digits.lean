import Schemata.Text.Basic
import Mathlib.Tactic

/-!
# Digits of numbers

The digits of a number in base ten spell it, and they begin with a zero only if
the number is zero.  Zeros in front do not change the value of digits, and
digits with one value differ by them alone.

**Results.** `Text.digitsValue_inj`, `Text.digitsValue_toDigits`,
`Text.eq_zeros_append_toDigits`.
-/

namespace Schemata

section Values

theorem Text.isDigit_iff
    (c : Char) :
    Text.isDigit c = true ↔ 48 ≤ c.toNat ∧ c.toNat ≤ 57 := by
  simp only [Text.isDigit, Bool.and_eq_true, decide_eq_true_eq, Char.le_def]
  rfl

/-- Runs of digits of one length that give the same value, after numbers that may differ, are the
same. -/
theorem Text.eq_of_foldl_eq
    {n m : Nat}
    {cs ds : List Char}
    (hcs : ∀ c ∈ cs, Text.isDigit c = true)
    (hds : ∀ d ∈ ds, Text.isDigit d = true)
    (hlength : cs.length = ds.length)
    (h : cs.foldl (fun k c => 10 * k + Text.digitValue c) n =
      ds.foldl (fun k d => 10 * k + Text.digitValue d) m) :
    n = m ∧ cs = ds := by
  induction cs generalizing n m ds with
  | nil =>
      cases ds with
      | nil =>
          exact ⟨h, rfl⟩
      | cons d ds =>
          cases hlength
  | cons c cs ih =>
      cases ds with
      | nil =>
          cases hlength
      | cons d ds =>
          have hc := (Text.isDigit_iff c).mp (hcs c List.mem_cons_self)
          have hd := (Text.isDigit_iff d).mp (hds d List.mem_cons_self)
          obtain ⟨hvalue, rfl⟩ := ih (fun x hx => hcs x (List.mem_cons_of_mem c hx))
            (fun x hx => hds x (List.mem_cons_of_mem d hx)) (Nat.succ.inj hlength) h
          have hzero : '0'.toNat = 48 := rfl
          simp only [Text.digitValue, hzero] at hvalue
          have hchar : c.toNat = d.toNat := by
            omega
          exact ⟨by omega, by rw [Char.toNat_inj.mp hchar]⟩

theorem Text.digitsValue_inj
    {cs ds : List Char}
    (hcs : ∀ c ∈ cs, Text.isDigit c = true)
    (hds : ∀ d ∈ ds, Text.isDigit d = true)
    (hlength : cs.length = ds.length)
    (h : Text.digitsValue cs = Text.digitsValue ds) :
    cs = ds :=
  (Text.eq_of_foldl_eq hcs hds hlength h).2

end Values

section Digits

/-- Only the digits of zero begin with a zero. -/
theorem Text.eq_zero_of_toDigits
    {n : Nat}
    {rest : List Char}
    (h : Nat.toDigits 10 n = '0' :: rest) :
    n = 0 := by
  induction n using Nat.strongRecOn generalizing rest with
  | ind n ih =>
      rw [Nat.toDigits_eq_if (by decide)] at h
      split at h
      · rename_i hlt
        have hdigit : n.digitChar = '0' := (List.cons.inj h).1
        interval_cases n <;> first | rfl | exact absurd hdigit (by decide)
      · rename_i hge
        obtain ⟨c, cs, hfirst⟩ :=
          List.exists_cons_of_ne_nil (Nat.toDigits_ne_nil (n := n / 10) (b := 10))
        rw [hfirst, List.cons_append] at h
        obtain rfl := (List.cons.inj h).1
        have hzero := ih (n / 10) (by omega) hfirst
        omega

theorem Text.isDigits_toDigits
    (n : Nat) :
    Text.isDigits (Nat.toDigits 10 n) = true := by
  have hne : Nat.toDigits 10 n ≠ [] := Nat.toDigits_ne_nil
  simp only [Text.isDigits, Bool.and_eq_true, Bool.not_eq_true', List.isEmpty_eq_false_iff,
    List.all_eq_true]
  refine ⟨hne, fun c hc => ?_⟩
  have hdigit := Nat.isDigit_of_mem_toDigits (by decide) (by decide) hc
  simp only [Char.isDigit, Bool.and_eq_true, decide_eq_true_eq] at hdigit
  simp only [Text.isDigit, Bool.and_eq_true, decide_eq_true_eq]
  exact hdigit

theorem Text.digitsValue_toDigits
    (n : Nat) :
    Text.digitsValue (Nat.toDigits 10 n) = n := by
  have h := Nat.ofDigitChars_ten_toDigits (n := n)
  rw [Nat.ofDigitChars_eq_foldl] at h
  exact h

/-- Numbers are told apart by their texts. -/
theorem Text.toString_nat_injective :
    Function.Injective fun n : Nat => toString n := by
  intro m n h
  have hdigits : Nat.toDigits 10 m = Nat.toDigits 10 n := by
    have hlist := congrArg String.toList h
    exact Nat.toList_repr ▸ Nat.toList_repr ▸ hlist
  rw [← Text.digitsValue_toDigits m, hdigits, Text.digitsValue_toDigits]

theorem Text.underscore_not_mem_toString
    (n : Nat) :
    '_' ∉ (toString n).toList := by
  intro hmem
  have hdigit := Nat.isDigit_of_mem_toDigits (by decide) (by decide) (Nat.toList_repr ▸ hmem)
  exact absurd hdigit (by decide)

/-- The written form of a whole number: its digits, behind a minus if it is negative. -/
theorem Text.toList_toString_int
    (n : Int) :
    (0 ≤ n ∧ (toString n).toList = Nat.toDigits 10 n.natAbs) ∨
      (n < 0 ∧ (toString n).toList = '-' :: Nat.toDigits 10 n.natAbs) := by
  rw [Int.toString_eq_repr, Int.repr_eq_if]
  by_cases hn : 0 ≤ n
  · have habs : n.toNat = n.natAbs := by omega
    rw [if_pos hn, habs]
    exact .inl ⟨hn, Nat.toList_repr⟩
  · have habs : (-n).toNat = n.natAbs := by omega
    rw [if_neg hn, habs]
    exact .inr ⟨by omega, by simp⟩

end Digits

section Zeros

theorem Text.digitChar_digitValue
    {c : Char}
    (h : Text.isDigit c = true) :
    Nat.digitChar (Text.digitValue c) = c ∧ Text.digitValue c < 10 := by
  obtain ⟨hleast, hgreatest⟩ := (Text.isDigit_iff c).mp h
  have hvalue : Text.digitValue c = c.toNat - 48 := rfl
  have hlt : Text.digitValue c < 10 := by omega
  refine ⟨Char.toNat_inj.mp ?_, hlt⟩
  rw [Nat.toNat_digitChar_of_lt_ten hlt]
  omega

theorem Text.digitsValue_append_singleton
    (digits : List Char)
    (c : Char) :
    Text.digitsValue (digits ++ [c]) = 10 * Text.digitsValue digits + Text.digitValue c := by
  simp [Text.digitsValue]

/-- Digits are zeros in front of the digits of their value. -/
theorem Text.eq_zeros_append_toDigits
    {digits : List Char}
    (h : Text.isDigits digits = true) :
    ∃ zeros, digits = List.replicate zeros '0' ++ Nat.toDigits 10 (Text.digitsValue digits) := by
  induction digits using List.reverseRecOn with
  | nil =>
      cases h
  | append_singleton digits c ih =>
      simp only [Text.isDigits, Bool.and_eq_true, List.all_append, List.all_cons, List.all_nil,
        Bool.and_true] at h
      obtain ⟨-, hdigits, hc⟩ := h
      obtain ⟨hchar, hlt⟩ := Text.digitChar_digitValue hc
      rw [Text.digitsValue_append_singleton]
      by_cases hzero : Text.digitsValue digits = 0
      · have hlast : Nat.toDigits 10 (Text.digitValue c) = [c] := by
          rw [Nat.toDigits_of_lt_base hlt, hchar]
        rw [hzero, Nat.mul_zero, Nat.zero_add, hlast]
        cases digits with
        | nil =>
            exact ⟨0, rfl⟩
        | cons d rest =>
            obtain ⟨zeros, heq⟩ := ih (by simp [Text.isDigits, hdigits])
            rw [hzero] at heq
            refine ⟨zeros + 1, ?_⟩
            rw [heq, List.replicate_succ']
            rfl
      · have hne : digits ≠ [] := by
          rintro rfl
          exact hzero rfl
        obtain ⟨zeros, heq⟩ := ih (by simp [Text.isDigits, hdigits, hne])
        have hlast := Nat.toDigits_append_toDigits (b := 10) (by decide)
          (Nat.pos_of_ne_zero hzero) hlt
        rw [Nat.toDigits_of_lt_base hlt, hchar] at hlast
        refine ⟨zeros, ?_⟩
        rw [← hlast, ← List.append_assoc, ← heq]

theorem Text.digitsValue_zeros_append
    (zeros : Nat)
    (digits : List Char) :
    Text.digitsValue (List.replicate zeros '0' ++ digits) = Text.digitsValue digits := by
  induction zeros with
  | zero =>
      rfl
  | succ zeros ih =>
      exact ih

theorem Text.isDigits_zeros_append
    (zeros : Nat)
    {digits : List Char}
    (h : Text.isDigits digits = true) :
    Text.isDigits (List.replicate zeros '0' ++ digits) = true := by
  simp only [Text.isDigits, Bool.and_eq_true, Bool.not_eq_true', List.isEmpty_eq_false_iff] at h ⊢
  refine ⟨by simp [h.1], ?_⟩
  rw [List.all_append, h.2, Bool.and_true, List.all_eq_true]
  intro c hc
  rw [List.eq_of_mem_replicate hc]
  rfl

end Zeros

end Schemata
