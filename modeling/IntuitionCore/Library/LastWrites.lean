import Mathlib.Algebra.BigOperators.Group.Finset.Basic

/-!
# The values that were written last

Values are written under keys, one after the other, and a value that is written
takes the place of the one its key had. What is left can be added up over the
keys. A single cell that holds the value that was written last of all, whatever
its key, holds that sum exactly if the values of the other keys add up to nothing.
-/

namespace LastWrites

open scoped BigOperators

variable {κ M : Type} [DecidableEq κ] {writes : List (κ × M)} {k : κ} {v : M}

/-- The keys that something was written under. -/
def keys (writes : List (κ × M)) : Finset κ := (writes.map Prod.fst).toFinset

theorem mem_keys_of_getLast? (h : writes.getLast? = some (k, v)) : k ∈ keys writes :=
  List.mem_toFinset.mpr (List.mem_map.mpr ⟨(k, v), List.mem_of_getLast? h, rfl⟩)

/-- The value that was written last under a key, or zero if none was. -/
def last [Zero M] (writes : List (κ × M)) (k : κ) : M :=
  (((writes.filter fun w => w.1 = k).getLast?).map Prod.snd).getD 0

/-- The last value of all is the last one of its key. -/
theorem last_of_getLast? [Zero M] (h : writes.getLast? = some (k, v)) : last writes k = v := by
  obtain ⟨front, rfl⟩ := List.getLast?_eq_some_iff.mp h
  simp [last, List.filter_append]

/-- The sum over the keys. -/
def sum [AddCommMonoid M] (writes : List (κ × M)) : M := ∑ k ∈ keys writes, last writes k

/-- The sum over the keys but one. -/
def sumOthers [AddCommMonoid M] (writes : List (κ × M)) (k : κ) : M :=
  ∑ k' ∈ (keys writes).erase k, last writes k'

/-- The value that was written last of all, and what the other keys have. -/
theorem sum_eq_add [AddCommMonoid M] (h : writes.getLast? = some (k, v)) :
    sum writes = v + sumOthers writes k := by
  rw [sum, sumOthers, ← Finset.add_sum_erase _ _ (mem_keys_of_getLast? h), last_of_getLast? h]

/-- **The last value of all is the sum exactly if the others add up to zero.** -/
theorem eq_sum_iff [AddCommGroup M] (h : writes.getLast? = some (k, v)) :
    v = sum writes ↔ sumOthers writes k = 0 := by
  rw [sum_eq_add h]
  exact left_eq_add

end LastWrites
