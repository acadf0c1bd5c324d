import Mathlib.Algebra.Order.Floor.Div
import Mathlib.Algebra.GroupWithZero.Nat
import Mathlib.Data.Nat.Sqrt
import Mathlib.Tactic.Ring
import Mathlib.Tactic.Linarith

/-!
# Fixed-point squares and square roots

A fixed-point number with unit `u` is a natural number read as a multiple of
`1 / u`. Its square is `x * x / u`, which is seldom a whole number, and the
two ways of rounding it are two functions, `squareDown` and `squareUp`. The
square root is rounded down only.

What makes these usable is that the root is the adjoint of the square rounded
*up* – `squareUp u x ≤ v` exactly when `x ≤ sqrtDown u v` – while squaring a
root *down* only loses: `squareDown u (sqrtDown u v) ≤ v`. Bounds in favour of
one side need no estimate of a rounding error; how much is lost is estimated
once, for the root.
-/

namespace FixedPoint

variable {u x y v w : ℕ}

/-- The square of a fixed-point number, rounded down. -/
def squareDown (u x : ℕ) : ℕ := x * x / u

/-- The square of a fixed-point number, rounded up. -/
def squareUp (u x : ℕ) : ℕ := x * x ⌈/⌉ u

/-- The square root of a fixed-point number, rounded down. -/
def sqrtDown (u v : ℕ) : ℕ := Nat.sqrt (v * u)

theorem squareDown_mono (h : x ≤ y) : squareDown u x ≤ squareDown u y :=
  Nat.div_le_div_right (Nat.mul_le_mul h h)

theorem sqrtDown_mono (h : v ≤ w) : sqrtDown u v ≤ sqrtDown u w :=
  Nat.sqrt_le_sqrt (Nat.mul_le_mul_right u h)

theorem div_le_ceilDiv (v u : ℕ) : v / u ≤ v ⌈/⌉ u :=
  floorDiv_le_ceilDiv (a := u) (b := v)

/-- The two roundings of a square bracket it. -/
theorem squareDown_le_squareUp (u x : ℕ) : squareDown u x ≤ squareUp u x :=
  div_le_ceilDiv (x * x) u

/-- **The root is the adjoint of the square rounded up.** -/
theorem squareUp_le_iff (hu : 0 < u) : squareUp u x ≤ v ↔ x ≤ sqrtDown u v := by
  rw [squareUp, sqrtDown, ceilDiv_le_iff_le_mul hu, Nat.le_sqrt, Nat.mul_comm u v]

/-- **Squaring a root only loses.** -/
theorem squareDown_sqrtDown_le (hu : 0 < u) (v : ℕ) :
    squareDown u (sqrtDown u v) ≤ v :=
  (squareDown_le_squareUp u _).trans ((squareUp_le_iff hu).mpr le_rfl)

/-! ## What a root leaves behind

The other direction does need an estimate: a number is more than the square of
its root, but by no more than twice the root, rounded up. -/

/-- Rounding the second of two amounts up gives at least the quotient of their
sum. -/
theorem add_div_le (hu : 0 < u) (v w : ℕ) : (v + w) / u ≤ v / u + w ⌈/⌉ u := by
  have hw : w ≤ u * (w ⌈/⌉ u) := le_smul_ceilDiv hu
  calc (v + w) / u ≤ (v + u * (w ⌈/⌉ u)) / u := Nat.div_le_div_right (Nat.add_le_add_left hw v)
    _ = v / u + w ⌈/⌉ u := Nat.add_mul_div_left v _ hu

/-- **Squaring a root loses at most twice the root.** -/
theorem le_squareDown_sqrtDown (hu : 0 < u) (v : ℕ) :
    v ≤ squareDown u (sqrtDown u v) + (2 * sqrtDown u v) ⌈/⌉ u := by
  have hroot : v * u ≤ sqrtDown u v * sqrtDown u v + 2 * sqrtDown u v := by
    rw [Nat.two_mul, ← Nat.add_assoc]
    exact Nat.sqrt_le_add (v * u)
  exact ((Nat.le_div_iff_mul_le hu).mpr hroot).trans (add_div_le hu _ _)

/-- **When a root falls short.** The root of a rounded square and something
more is below what was squared exactly when nothing more was added and the
rounding lost something. -/
theorem sqrtDown_squareDown_add_lt_iff (hu : 0 < u) (x v : ℕ) :
    sqrtDown u (squareDown u x + v) < x ↔ v = 0 ∧ x * x % u ≠ 0 := by
  have hsq := Nat.div_add_mod (x * x) u
  have hlt := Nat.mod_lt (x * x) hu
  rw [sqrtDown, Nat.sqrt_lt, squareDown, Nat.add_mul, Nat.mul_comm (x * x / u)]
  constructor
  · intro h
    -- a whole unit more than the rounded square is more than the square
    have hv : v = 0 := by
      by_contra hne
      have hle := Nat.le_mul_of_pos_left u (Nat.pos_of_ne_zero hne)
      omega
    rw [hv, Nat.zero_mul] at h
    exact ⟨hv, by omega⟩
  · rintro ⟨rfl, hne⟩
    rw [Nat.zero_mul]
    omega

/-! ## Divisions rounded up -/

/-- Rounding two amounts up separately never gives less than rounding their
sum up. -/
theorem ceilDiv_add_le (hu : 0 < u) (v w : ℕ) :
    (v + w) ⌈/⌉ u ≤ v ⌈/⌉ u + w ⌈/⌉ u := by
  rw [ceilDiv_le_iff_le_mul hu, Nat.mul_add]
  exact Nat.add_le_add (le_smul_ceilDiv hu) (le_smul_ceilDiv hu)

theorem ceilDiv_mono (hu : 0 < u) (h : v ≤ w) : v ⌈/⌉ u ≤ w ⌈/⌉ u :=
  (ceilDiv_le_iff_le_mul hu).mpr (h.trans (le_smul_ceilDiv hu))

/-- A quotient rounded up is the quotient rounded down, plus one unless the
division is exact. -/
theorem ceilDiv_eq_ite (hu : 0 < u) (v : ℕ) :
    v ⌈/⌉ u = if v % u = 0 then v / u else v / u + 1 := by
  have hv := Nat.div_add_mod v u
  have hlt := Nat.mod_lt v hu
  refine le_antisymm ((ceilDiv_le_iff_le_mul hu).mpr ?_) ?_
  · split
    · omega
    · rw [Nat.mul_add]
      omega
  · split
    · exact div_le_ceilDiv v u
    · by_contra hle
      have hc : v ⌈/⌉ u ≤ v / u := by omega
      rw [ceilDiv_le_iff_le_mul hu] at hc
      omega

/-- Rounding up adds less than one. -/
theorem mul_ceilDiv_le (hu : 0 < u) (v : ℕ) : u * (v ⌈/⌉ u) ≤ v + (u - 1) := by
  rw [Nat.ceilDiv_eq_add_pred_div]
  exact (Nat.mul_div_le _ _).trans_eq (Nat.add_sub_assoc hu v)

/-! ## Parts of an amount

Several parts are taken of one amount, each at its own rate and each rounded
up. The roundings add up: what is taken of a larger amount may be more than the
amount grew by, but by less than one for each rate. -/

/-- What is taken of the amount `v` at the given rates, in parts of `u`. -/
def parts (u : ℕ) (rates : List ℕ) (v : ℕ) : ℕ :=
  (rates.map fun r => (v * r) ⌈/⌉ u).sum

theorem parts_nil (u v : ℕ) : parts u [] v = 0 := rfl

theorem parts_cons (u r : ℕ) (rates : List ℕ) (v : ℕ) :
    parts u (r :: rates) v = (v * r) ⌈/⌉ u + parts u rates v := List.sum_cons

theorem parts_append (u : ℕ) (rates rates' : List ℕ) (v : ℕ) :
    parts u (rates ++ rates') v = parts u rates v + parts u rates' v := by
  rw [parts, List.map_append, List.sum_append, parts, parts]

/-- More is taken of a larger amount. -/
theorem parts_mono (hu : 0 < u) (rates : List ℕ) (h : v ≤ w) :
    parts u rates v ≤ parts u rates w := by
  induction rates with
  | nil => exact le_rfl
  | cons r rates ih =>
    rw [parts_cons, parts_cons]
    exact Nat.add_le_add (ceilDiv_mono hu (Nat.mul_le_mul_right r h)) ih

/-- Taking of two amounts takes at least what is taken of their sum. -/
theorem parts_add_le (hu : 0 < u) (rates : List ℕ) (v w : ℕ) :
    parts u rates (v + w) ≤ parts u rates v + parts u rates w := by
  induction rates with
  | nil => exact le_rfl
  | cons r rates ih =>
    have hr := ceilDiv_add_le hu (v * r) (w * r)
    rw [← Nat.add_mul] at hr
    rw [parts_cons, parts_cons, parts_cons]
    omega

/-- Cleared of the unit, each rate that is not zero adds less than a unit to
what is taken exactly. -/
theorem mul_parts_le (hu : 0 < u) (rates : List ℕ) (v : ℕ) :
    u * parts u rates v ≤ v * rates.sum + rates.countP (0 < ·) * (u - 1) := by
  induction rates with
  | nil => exact Nat.zero_le _
  | cons r rates ih =>
    rw [parts_cons, List.sum_cons, Nat.mul_add, Nat.mul_add]
    by_cases hr : 0 < r
    · rw [List.countP_cons_of_pos (by simpa using hr), Nat.add_mul]
      have hone := mul_ceilDiv_le hu (v * r)
      omega
    · rw [List.countP_cons_of_neg (by simpa using hr), Nat.eq_zero_of_not_pos hr, Nat.mul_zero,
        zero_ceilDiv, Nat.mul_zero, Nat.zero_add, Nat.zero_add]
      exact ih

/-- **What is taken at rates of at most the whole** is at most the amount, and
one less than the number of rates that are not zero. -/
theorem parts_le (hu : 0 < u) {rates : List ℕ} (h : rates.sum ≤ u) (v : ℕ) :
    parts u rates v ≤ v + (rates.countP (0 < ·) - 1) := by
  have hmul := mul_parts_le hu rates v
  have hwhole : v * rates.sum ≤ u * v := by
    rw [Nat.mul_comm u]
    exact Nat.mul_le_mul_left v h
  cases hk : rates.countP (0 < ·) with
  | zero =>
    rw [hk, Nat.zero_mul] at hmul
    exact Nat.le_of_mul_le_mul_left (hmul.trans hwhole) hu
  | succ k =>
    rw [hk, Nat.mul_sub, Nat.mul_one] at hmul
    have hk' : k + 1 ≤ (k + 1) * u := Nat.le_mul_of_pos_right _ hu
    refine Nat.le_of_lt_succ (Nat.lt_of_mul_lt_mul_left (a := u) ?_)
    rw [Nat.succ_eq_add_one, Nat.add_sub_cancel, Nat.add_assoc, Nat.mul_add,
      Nat.mul_comm u (k + 1)]
    omega

/-- **What is left of a larger amount**, after what is taken of both: at most
less by one less than the number of rates, and never more by more than the
amount grew. -/
theorem parts_slack (hu : 0 < u) {rates : List ℕ} (h : rates.sum ≤ u) (hvw : v ≤ w) :
    parts u rates w ≤ parts u rates v + (w - v) + (rates.countP (0 < ·) - 1) := by
  have hadd := parts_add_le hu rates v (w - v)
  have hle := parts_le hu h (w - v)
  rw [Nat.add_sub_cancel' hvw] at hadd
  omega

end FixedPoint
