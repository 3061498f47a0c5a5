import Schemata.Decimal.Double
import Mathlib.Tactic

/-!
# Whole numbers of 64 bits are finite doubles

A positive whole number with its leading bit at `k` is rounded at the scale
`k - 52`, where it has 53 significant bits.  Its magnitude is then at most
`(k + 1024)` times the size of the fraction, which for `k ≤ 64` is far below
the magnitude of an infinity.

**Result.** `isFinite_ofInt`.
-/

namespace Schemata
namespace Decimal
namespace Double

theorem isFinite_ofMagnitude
    (negative : Bool)
    {magnitude : Nat}
    (h : magnitude < infinityMagnitude) :
    (ofMagnitude negative magnitude).isFinite = true := by
  have hinfinity : infinityMagnitude < signBit := by decide
  have hbits : ∀ sign, sign = 0 ∨ sign = signBit →
      (magnitude + sign) % 2 ^ 64 % signBit = magnitude := by
    intro sign hsign
    unfold signBit at *
    omega
  simp only [isFinite, Double.magnitude, ofMagnitude, UInt64.toNat_ofNat', decide_eq_true_eq]
  cases negative with
  | false =>
      rw [if_neg Bool.false_ne_true, hbits 0 (Or.inl rfl)]
      exact h
  | true =>
      rw [if_pos rfl, hbits signBit (Or.inr rfl)]
      exact h

/-- A whole number is rounded at the scale of its leading bit. -/
theorem scaleOf_one
    {num : Nat}
    (hnum : num ≠ 0) :
    scaleOf num 1 = (num.log2 : Int) - 52 := by
  have hpower : powerLe (num.log2 : Int) num 1 = true := by
    have hle := Nat.log2_self_le hnum
    simpa [powerLe] using hle
  have hguess : (num.log2 : Int) - (Nat.log2 1 : Nat) = num.log2 := by
    have hone : Nat.log2 1 = 0 := by decide
    rw [hone]
    omega
  simp only [scaleOf, hguess, hpower, if_true]
  omega

theorem roundDiv_le
    {num den bound : Nat}
    (h : num / den ≤ bound)
    (tie : Tie) :
    roundDiv tie num den ≤ bound + 1 := by
  rcases roundDiv_eq_or tie num den with heq | heq
  · omega
  · omega

theorem scaledQuotient_le
    (num : Nat) :
    scaledQuotient num 1 ((num.log2 : Int) - 52) ≤ 2 * fractionSize + 1 := by
  have hlt : num < 2 ^ (num.log2 + 1) := Nat.lt_log2_self
  have hsize : 2 * fractionSize = 2 ^ 53 := by decide
  unfold scaledQuotient
  rw [hsize]
  by_cases hscale : (0 : Int) ≤ (num.log2 : Int) - 52
  · rw [if_pos hscale]
    have hsplit : num.log2 + 1 = ((num.log2 : Int) - 52).toNat + 53 := by omega
    rw [hsplit, Nat.pow_add] at hlt
    refine roundDiv_le ?_ .toEven
    rw [Nat.one_mul]
    exact (Nat.div_lt_of_lt_mul hlt).le
  · rw [if_neg hscale]
    have hsplit : 2 ^ (num.log2 + 1) * 2 ^ (-((num.log2 : Int) - 52)).toNat = 2 ^ 53 := by
      rw [← Nat.pow_add]
      congr 1
      omega
    refine roundDiv_le ?_ .toEven
    rw [Nat.div_one, ← hsplit]
    exact Nat.mul_le_mul_right _ hlt.le

/-- Whole numbers of at most 65 bits are finite as doubles. -/
theorem isFinite_ofInt
    {n : Int}
    (h : n.natAbs < 2 ^ 65) :
    (ofInt n).isFinite = true := by
  unfold ofInt ofRatio
  by_cases hzero : n.natAbs = 0
  · rw [if_pos hzero]
    exact isFinite_ofMagnitude _ (by decide)
  · rw [if_neg hzero]
    have hlog : n.natAbs.log2 < 65 := (Nat.log2_lt hzero).mpr h
    have hquotient := scaledQuotient_le n.natAbs
    refine isFinite_ofMagnitude _ ?_
    simp only [scaleOf_one hzero]
    have hscale : ((n.natAbs.log2 : Int) - 52 + 1074).toNat = n.natAbs.log2 + 1022 := by omega
    rw [hscale]
    have hproduct : (n.natAbs.log2 + 1022) * fractionSize ≤ 1086 * fractionSize :=
      Nat.mul_le_mul_right _ (by omega)
    have hbound : 1086 * fractionSize + (2 * fractionSize + 1) < infinityMagnitude := by decide
    omega

end Double
end Decimal
end Schemata
