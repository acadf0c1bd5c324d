import Mathlib.Algebra.Group.Nat.Defs
import Mathlib.Data.Nat.Log

/-!
# Naturals as doubles

A double has 53 bits for its digits. A natural that needs more is rounded to the nearest
double, and to the even one of two that are equally near; beyond the greatest double there is
none. What is below `2 ^ 53` stays as it is.
-/

namespace Doubles

/-- The bits of a natural that a double has no room for. -/
def spareBits (n : ℕ) : ℕ := Nat.log 2 n - 52

/-- The digits that a double keeps of a natural, rounded. -/
def digits (n : ℕ) : ℕ :=
  let unit := 2 ^ spareBits n
  if unit < 2 * (n % unit) ∨ unit = 2 * (n % unit) ∧ n / unit % 2 = 1 then n / unit + 1
  else n / unit

/-- Every double is below this power of two. -/
def maxExponent : ℕ := 1024

/-- The double nearest to a natural, if it is finite. -/
def ofNat (n : ℕ) : Option ℕ :=
  let value := digits n * 2 ^ spareBits n
  if value < 2 ^ maxExponent then some value else none

lemma spareBits_eq_zero {n : ℕ} (h : n < 2 ^ 53) : spareBits n = 0 := by
  obtain rfl | hn := eq_or_ne n 0
  · rfl
  · have hlog := Nat.log_lt_of_lt_pow hn h
    unfold spareBits
    omega

/-- **A natural of 53 bits is a double.** -/
theorem ofNat_of_lt {n : ℕ} (h : n < 2 ^ 53) : ofNat n = some n := by
  have hdigits : digits n = n := by
    unfold digits
    rw [spareBits_eq_zero h]
    simp [Nat.mod_one]
  have hlt : n < 2 ^ maxExponent := h.trans (Nat.pow_lt_pow_right (by decide) (by decide))
  unfold ofNat
  rw [hdigits, spareBits_eq_zero h, pow_zero, mul_one]
  exact if_pos hlt

lemma quotient_le_digits (n : ℕ) : n / 2 ^ spareBits n ≤ digits n := by
  unfold digits
  dsimp only
  split
  · exact Nat.le_succ _
  · exact Nat.le_refl _

/-- A natural of more bits becomes no smaller than the last one of 53. -/
theorem le_of_ofNat {n v : ℕ} (h : ofNat n = some v) (hn : 2 ^ 53 ≤ n) : 2 ^ 52 ≤ v := by
  unfold ofNat at h
  dsimp only at h
  split at h
  case isFalse => cases h
  case isTrue =>
    cases h
    have hlog : 53 ≤ Nat.log 2 n := Nat.le_log_of_pow_le (by decide) hn
    have hpow : 2 ^ 52 * 2 ^ spareBits n ≤ n := by
      rw [← pow_add, spareBits, Nat.add_sub_cancel' (by omega)]
      exact Nat.pow_log_le_self 2 (by omega)
    have hq : 2 ^ 52 ≤ n / 2 ^ spareBits n := (Nat.le_div_iff_mul_le (Nat.two_pow_pos _)).mpr hpow
    calc 2 ^ 52 ≤ digits n := hq.trans (quotient_le_digits n)
      _ ≤ digits n * 2 ^ spareBits n := Nat.le_mul_of_pos_right _ (Nat.two_pow_pos _)

/-- A small double is the double of itself only. -/
theorem eq_of_ofNat {n v : ℕ} (h : ofNat n = some v) (hv : v < 2 ^ 52) : v = n := by
  by_cases hn : n < 2 ^ 53
  · rw [ofNat_of_lt hn] at h
    exact (Option.some.inj h).symm
  · exact absurd (le_of_ofNat h (Nat.le_of_not_lt hn)) (Nat.not_le_of_lt hv)

end Doubles
