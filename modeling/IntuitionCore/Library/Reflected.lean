import IntuitionCore.Library.Totals
import Mathlib.Algebra.Order.Group.MinMax
import Mathlib.Data.List.Infix
import Mathlib.Algebra.Order.Monoid.Unbundled.MinMax

/-!
# Reflected walks

A counter that is never taken below zero forgets what it could not give: each
step adds its part to the counter, and what would be negative is zero. Such a
walk ends where the unreflected one does exactly if the latter was never
negative on its way, and it ends at zero exactly if no stretch of steps at its
end adds up to more than zero.
-/

namespace Reflected

variable {ε M : Type} [AddCommGroup M] [LinearOrder M] {f : ε → M} {v : M} {es : List ε}

/-- A walk that stops at zero instead of going below it. -/
def walk (f : ε → M) (v : M) (es : List ε) : M := es.foldl (fun v e => max (v + f e) 0) v

@[simp] theorem walk_nil : walk f v [] = v := rfl

theorem walk_cons (e : ε) : walk f v (e :: es) = walk f (max (v + f e) 0) es := rfl

variable [IsOrderedAddMonoid M]

/-- A reflected walk is nowhere below the walk itself. -/
theorem add_sum_le_walk : v + (es.map f).sum ≤ walk f v es := by
  induction es generalizing v with
  | nil => exact (add_zero v).le
  | cons e es ih =>
    rw [List.map_cons, List.sum_cons, ← add_assoc, walk_cons]
    exact (add_le_add_left (le_max_left _ _) _).trans ih

/-- **A reflected walk ends where the walk does exactly if the latter is never
below zero.** -/
theorem walk_eq_add_sum_iff (hv : 0 ≤ v) :
    walk f v es = v + (es.map f).sum ↔ ∀ before, before <+: es → 0 ≤ v + (before.map f).sum := by
  induction es generalizing v with
  | nil =>
    refine iff_of_true (add_zero v).symm fun before h => ?_
    rw [List.prefix_nil.mp h]
    exact hv.trans (add_zero v).ge
  | cons e es ih =>
    rw [walk_cons, List.map_cons, List.sum_cons, ← add_assoc]
    by_cases hle : 0 ≤ v + f e
    · -- the step is not reflected, and the walk goes on from it
      rw [max_eq_left hle, ih hle]
      constructor
      · intro h before hbefore
        obtain rfl | ⟨before', rfl, hbefore'⟩ := List.prefix_cons_iff.mp hbefore
        · exact hv.trans (add_zero v).ge
        · rw [List.map_cons, List.sum_cons, ← add_assoc]
          exact h before' hbefore'
      · intro h before hbefore
        have hcons := h (e :: before) (List.cons_prefix_cons.mpr ⟨rfl, hbefore⟩)
        rwa [List.map_cons, List.sum_cons, ← add_assoc] at hcons
    · -- the step that is reflected is never made up for
      have hlt : v + f e < 0 := not_le.mp hle
      rw [max_eq_right hlt.le]
      refine iff_of_false (fun h => ?_) fun h => ?_
      · have hwalk : 0 + (es.map f).sum ≤ walk f 0 es := add_sum_le_walk
        rw [h, zero_add] at hwalk
        exact absurd hwalk (not_le.mpr (add_lt_of_neg_left _ hlt))
      · refine hle ?_
        simpa using h [e] (List.cons_prefix_cons.mpr ⟨rfl, List.nil_prefix⟩)

/-- **A reflected walk ends at zero exactly if no stretch at its end adds up to
more.** -/
theorem walk_eq_zero_iff (hv : 0 ≤ v) :
    walk f v es = 0
      ↔ v + (es.map f).sum ≤ 0 ∧ ∀ after, after <:+ es → (after.map f).sum ≤ 0 := by
  induction es generalizing v with
  | nil =>
    rw [walk_nil, List.map_nil, List.sum_nil, add_zero]
    constructor
    · rintro rfl
      refine ⟨le_rfl, fun after h => ?_⟩
      rw [List.suffix_nil.mp h]
      exact le_rfl
    · exact fun h => le_antisymm h.1 hv
  | cons e es ih =>
    rw [walk_cons, ih (le_max_right _ _), List.map_cons, List.sum_cons, ← add_assoc]
    constructor
    · rintro ⟨hsum, hafter⟩
      have hle : v + f e + (es.map f).sum ≤ 0 :=
        (add_le_add_left (le_max_left _ _) _).trans hsum
      refine ⟨hle, fun after h => ?_⟩
      -- the whole list, or a stretch of the rest
      obtain rfl | h := List.suffix_cons_iff.mp h
      · rw [List.map_cons, List.sum_cons]
        refine le_trans ?_ hle
        rw [add_assoc]
        exact le_add_of_nonneg_left hv
      · exact hafter after h
    · rintro ⟨hsum, hafter⟩
      refine ⟨?_, fun after h => hafter after (h.trans (List.suffix_cons e es))⟩
      rw [← max_add_add_right]
      refine max_le hsum ?_
      rw [zero_add]
      exact hafter es (List.suffix_cons e es)

end Reflected

/-! ## Rows that stop at zero -/

namespace Ledger

variable {ε κ ρ M : Type} [DecidableEq κ] [AddCommGroup M] [LinearOrder M] [IsOrderedAddMonoid M]
  (L : Ledger ε κ ρ) {f : ε → M} {μ : ρ → M} {k : κ} {r : ρ} {es : List ε}

omit [IsOrderedAddMonoid M] in
/-- A measure that each event of a key adds its part to, stopping at zero, walks
as the parts of the events tell it. -/
theorem reflected_apply (hμ : ∀ e ∈ es, ∀ r, 0 ≤ μ r → μ (L.step r e) = max (μ r + f e) 0)
    (hr : 0 ≤ μ r) :
    μ (L.apply k r es) = Reflected.walk (fun e => if L.concerns k e then f e else 0) (μ r) es := by
  induction es generalizing r with
  | nil => rfl
  | cons e es ih =>
    have hstep := hμ e List.mem_cons_self r hr
    rw [apply_cons, Reflected.walk_cons]
    by_cases hk : L.concerns k e = true
    · rw [if_pos hk, if_pos hk, ← hstep]
      refine ih (fun e he => hμ e (List.mem_cons_of_mem _ he)) ?_
      rw [hstep]
      exact le_max_right _ _
    · rw [if_neg hk, if_neg hk, add_zero, max_eq_left hr]
      exact ih (fun e he => hμ e (List.mem_cons_of_mem _ he)) hr

/-- **What stops at zero ends at the total exactly if no total on the way is
below zero.** -/
theorem reflected_eq_total_iff
    (hμ : ∀ e ∈ es, ∀ r, 0 ≤ μ r → μ (L.step r e) = max (μ r + f e) 0) (hr : μ r = 0) :
    μ (L.apply k r es) = L.total f k es
      ↔ ∀ before, before <+: es → 0 ≤ L.total f k (before : Multiset ε) := by
  rw [L.reflected_apply hμ hr.ge, hr, total_eq_sum, ← zero_add (List.sum _),
    Reflected.walk_eq_add_sum_iff le_rfl]
  refine forall_congr' fun before => forall_congr' fun _ => ?_
  rw [zero_add, total_eq_sum]

/-- **What stops at zero ends there exactly if no total of the last events is
above zero.** -/
theorem reflected_eq_zero_iff
    (hμ : ∀ e ∈ es, ∀ r, 0 ≤ μ r → μ (L.step r e) = max (μ r + f e) 0) (hr : μ r = 0) :
    μ (L.apply k r es) = 0
      ↔ ∀ after, after <:+ es → L.total f k (after : Multiset ε) ≤ 0 := by
  rw [L.reflected_apply hμ hr.ge, hr, Reflected.walk_eq_zero_iff le_rfl]
  simp only [total_eq_sum, zero_add]
  exact and_iff_right_of_imp fun h => h es List.suffix_rfl

end Ledger
