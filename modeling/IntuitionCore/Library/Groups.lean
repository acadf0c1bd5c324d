import Mathlib.Algebra.BigOperators.Group.Finset.Basic
import Mathlib.Algebra.BigOperators.Group.Finset.Piecewise
import Mathlib.Algebra.Group.Action.Defs
import Mathlib.Algebra.GroupWithZero.Nat
import Mathlib.Data.Finset.Dedup

/-!
# Groups

Rows are grouped by a key, and each group is aggregated. Where groups are then
grouped again, their sums add up to the sum over the rows themselves.
-/

namespace Groups

variable {α κ β : Type} [DecidableEq κ] (key : α → κ)

/-- The keys of the groups. -/
def keys (rows : List α) : List κ := (rows.map key).dedup

/-- The rows of a group. -/
def group (rows : List α) (k : κ) : List α := rows.filter fun r => key r = k

variable {key} {rows : List α} {k : κ}

theorem mem_keys : k ∈ keys key rows ↔ ∃ r ∈ rows, key r = k := by
  unfold keys
  rw [List.mem_dedup, List.mem_map]

theorem group_append (rows rows' : List α) :
    group key (rows ++ rows') k = group key rows k ++ group key rows' k :=
  List.filter_append rows rows'

theorem group_eq_nil (h : k ∉ keys key rows) : group key rows k = [] := by
  refine List.filter_eq_nil_iff.mpr fun r hr hrk => h ?_
  exact mem_keys.mpr ⟨r, hr, of_decide_eq_true hrk⟩

/-- What is computed for a key is found under it. -/
theorem lookup_map_keys (ks : List κ) (f : κ → β) (k : κ) :
    (ks.map fun k => (k, f k)).lookup k = if k ∈ ks then some (f k) else none := by
  induction ks with
  | nil => rfl
  | cons k' ks ih =>
    rw [List.map_cons, List.lookup_cons, ih]
    by_cases hk : k = k'
    · simp [hk]
    · rw [beq_false_of_ne hk]
      simp [hk]

variable (key) in
/-- Over keys that include those of the rows, the sums of the groups add up. -/
theorem sum_group_finset [AddCommMonoid β] (s : Finset κ) (f : α → β)
    (h : ∀ r ∈ rows, key r ∈ s) :
    ∑ k ∈ s, ((group key rows k).map f).sum = (rows.map f).sum := by
  induction rows with
  | nil => simp [group]
  | cons r rows ih =>
    have hcons : ∀ k, ((group key (r :: rows) k).map f).sum
        = (if key r = k then f r else 0) + ((group key rows k).map f).sum := by
      intro k
      by_cases hk : key r = k <;> simp [group, hk]
    rw [Finset.sum_congr rfl fun k _ => hcons k, Finset.sum_add_distrib, Finset.sum_ite_eq,
      if_pos (h r List.mem_cons_self), ih fun r' hr' => h r' (List.mem_cons_of_mem r hr'),
      List.map_cons, List.sum_cons]

variable (key) in
/-- **The sums of some groups add up to the sum of their rows.** -/
theorem sum_groups [AddCommMonoid β] (p : κ → Bool) (f : α → β) (rows : List α) :
    (((keys key rows).filter p).map fun k => ((group key rows k).map f).sum).sum
      = ((rows.filter fun r => p (key r)).map f).sum := by
  have hnodup : ((keys key rows).filter p).Nodup := (List.nodup_dedup _).filter p
  rw [← List.sum_toFinset _ hnodup, ← sum_group_finset key ((keys key rows).filter p).toFinset f]
  · refine Finset.sum_congr rfl fun k hk => ?_
    -- a group that is taken is taken with all its rows
    have hp : p k = true := (List.mem_filter.mp (List.mem_toFinset.mp hk)).2
    congr 2
    unfold group
    rw [List.filter_filter]
    refine List.filter_congr fun r _ => ?_
    by_cases hr : key r = k
    · simp [hr, hp]
    · simp [hr]
  · intro r hr
    obtain ⟨hmem, hp⟩ := List.mem_filter.mp hr
    exact List.mem_toFinset.mpr (List.mem_filter.mpr ⟨mem_keys.mpr ⟨r, hmem, rfl⟩, hp⟩)

variable (key) in
/-- **Some groups have as many rows together** as there are rows of theirs. -/
theorem sum_length_groups (p : κ → Bool) (rows : List α) :
    (((keys key rows).filter p).map fun k => (group key rows k).length).sum
      = (rows.filter fun r => p (key r)).length := by
  have hsum := sum_groups key p (fun _ => 1) rows
  simp only [List.map_const', List.sum_replicate, smul_eq_mul, mul_one] at hsum
  exact hsum

end Groups
