import Mathlib.Algebra.BigOperators.Group.List.Basic

/-!
# Tallies

A tally is a number that is only ever added to, and that is not there before
anything has been. What it is in the end is a sum, whatever the order in which
its amounts arrived; an amount that arrives again is added again.
-/

namespace Tally

variable {α : Type} [AddCommMonoid α]

/-- Add an amount to a tally. -/
def bump (t : Option α) (x : α) : Option α := some (t.getD 0 + x)

/-- The tally of some amounts. -/
def total (xs : List α) : Option α := xs.foldl bump none

/-- **A tally is a sum**, if there is anything to add up. -/
theorem total_eq (xs : List α) : total xs = if xs = [] then none else some xs.sum := by
  have hfold : ∀ (xs : List α) (x : α), xs.foldl bump (some x) = some (x + xs.sum) := by
    intro xs
    induction xs with
    | nil => intro x; simp
    | cons y xs ih =>
      intro x
      rw [List.foldl_cons, List.sum_cons, ← add_assoc]
      exact ih (x + y)
  cases xs with
  | nil => rfl
  | cons x xs =>
    show xs.foldl bump (some (0 + x)) = _
    rw [hfold, if_neg (List.cons_ne_nil x xs), List.sum_cons, zero_add]

theorem total_append (xs ys : List α) : total (xs ++ ys) = ys.foldl bump (total xs) :=
  List.foldl_append

/-- **The order of the amounts does not matter.** -/
theorem total_perm {xs ys : List α} (h : xs.Perm ys) : total xs = total ys := by
  rw [total_eq, total_eq, h.sum_eq]
  exact if_congr (by rw [← List.length_eq_zero_iff, h.length_eq, List.length_eq_zero_iff]) rfl rfl

end Tally

namespace Tally

variable {α : Type} [AddCommGroup α]

/-- **More amounts do not show exactly if they add up to nothing**, where there
are amounts already. -/
theorem total_append_eq_iff {xs ys : List α} (h : xs = [] → ys = []) :
    total (xs ++ ys) = total xs ↔ ys.sum = 0 := by
  by_cases hxs : xs = []
  · rw [hxs, h hxs]
    simp
  · rw [total_eq, total_eq, if_neg hxs, if_neg fun hnil => hxs (List.append_eq_nil_iff.mp hnil).1,
      List.sum_append]
    simp

end Tally
