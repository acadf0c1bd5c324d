import IntuitionCore.Library.Ledger
import Mathlib.Algebra.BigOperators.Group.Multiset.Basic
import Mathlib.Algebra.Order.BigOperators.Group.Multiset

/-!
# Totals over the events of a key

What the events of a key add up to does not depend on their order, nor on how
they were cut into batches: a total is a sum over a multiset. A measure of a
row to which each event adds its part is, after a list of events, what it was
plus their total; it is enough that this holds of the rows the events can meet.
-/

namespace Ledger

variable {ε κ ρ M : Type} [DecidableEq κ] [AddCommMonoid M] (L : Ledger ε κ ρ) {f : ε → M}
  {k : κ} {r : ρ} {e : ε} {es fs : List ε}

/-- What the events of a key add up to. -/
def total (f : ε → M) (k : κ) (es : Multiset ε) : M :=
  ((es.filter fun e => L.concerns k e = true).map f).sum

/-- The total of a list is the sum over the events of the key, in their
order. -/
theorem total_coe (f : ε → M) (k : κ) (es : List ε) :
    L.total f k es = ((es.filter (L.concerns k)).map f).sum := by
  unfold total
  rw [Multiset.filter_coe, Multiset.map_coe, Multiset.sum_coe]
  simp

@[simp] theorem total_nil : L.total f k ([] : List ε) = 0 := rfl

theorem total_cons :
    L.total f k (e :: es : List ε) = (if L.concerns k e then f e else 0) + L.total f k es := by
  rw [total_coe, total_coe]
  by_cases h : L.concerns k e = true <;> simp [h]

/-- A total is a sum in which the events of other keys have no part. -/
theorem total_eq_sum (f : ε → M) (k : κ) (es : List ε) :
    L.total f k es = (es.map fun e => if L.concerns k e then f e else 0).sum := by
  induction es with
  | nil => rfl
  | cons e es ih => rw [total_cons, ih, List.map_cons, List.sum_cons]

theorem total_append :
    L.total f k (es ++ fs : List ε) = L.total f k es + L.total f k fs := by
  rw [total_coe, total_coe, total_coe, List.filter_append, List.map_append, List.sum_append]

/-- Two ledgers have the same totals if the same events concern a key. -/
theorem total_congr {ρ' : Type} {L' : Ledger ε κ ρ'}
    (h : ∀ e ∈ es, L.concerns k e = L'.concerns k e) : L.total f k es = L'.total f k es := by
  rw [total_coe, total_coe, List.filter_congr h]

/-- What no event of the key has a part of adds up to nothing. -/
theorem total_eq_zero (h : ∀ e ∈ es, L.concerns k e = true → f e = 0) :
    L.total f k es = 0 := by
  rw [total_coe]
  refine List.sum_eq_zero fun x hx => ?_
  obtain ⟨e, he, rfl⟩ := List.mem_map.mp hx
  exact h e (List.mem_of_mem_filter he) (List.of_mem_filter he)

/-- What only has parts that are not negative is not negative. -/
theorem total_nonneg [PartialOrder M] [IsOrderedAddMonoid M] (h : ∀ e ∈ es, 0 ≤ f e) :
    0 ≤ L.total f k es := by
  rw [total_coe]
  refine List.sum_nonneg fun x hx => ?_
  obtain ⟨e, he, rfl⟩ := List.mem_map.mp hx
  exact h e (List.mem_of_mem_filter he)

/-- What only has parts that are not negative is nothing only if they are. -/
theorem eq_zero_of_total_eq_zero [PartialOrder M] [IsOrderedAddMonoid M] (h : ∀ e ∈ es, 0 ≤ f e)
    (htotal : L.total f k es = 0) (he : e ∈ es) (hk : L.concerns k e = true) : f e = 0 := by
  rw [total_coe] at htotal
  refine List.all_zero_of_le_zero_le_of_sum_eq_zero (fun x hx => ?_) htotal
    (List.mem_map_of_mem (List.mem_filter.mpr ⟨he, hk⟩))
  obtain ⟨e', he', rfl⟩ := List.mem_map.mp hx
  exact h e' (List.mem_of_mem_filter he')

/-- Events that have no part of it can be left out of a total. -/
theorem total_filter (f : ε → M) (k : κ) (es : List ε) {p : ε → Bool}
    (h : ∀ e, p e = false → f e = 0) :
    L.total f k (es.filter p : List ε) = L.total f k es := by
  induction es with
  | nil => rfl
  | cons e es ih =>
    cases hp : p e with
    | true => rw [List.filter_cons_of_pos hp, total_cons, total_cons, ih]
    | false =>
      rw [List.filter_cons_of_neg (hp ▸ Bool.false_ne_true), total_cons, ih, h e hp, ite_self,
        zero_add]

/-- **A measure to which each event adds its part grows by their total.** The
events keep the rows on which they do. -/
theorem measure_apply {P : ρ → Prop} {μ : ρ → M} (hP : ∀ r e, P r → P (L.step r e))
    (hμ : ∀ r e, P r → μ (L.step r e) = μ r + f e) (hr : P r) :
    μ (L.apply k r es) = μ r + L.total f k es := by
  induction es generalizing r with
  | nil => exact (add_zero _).symm
  | cons e es ih =>
    rw [apply_cons, total_cons]
    by_cases hk : L.concerns k e = true
    · rw [if_pos hk, if_pos hk, ih (hP r e hr), hμ r e hr, add_assoc]
    · rw [if_neg hk, if_neg hk, ih hr, zero_add]

end Ledger
