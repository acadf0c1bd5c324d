import Mathlib.Data.List.NodupEquivFin
import Mathlib.Data.List.Sort
import Mathlib.Order.WellFounded

/-!
# Elements by their rank

The element of a list that stands at a place when all of them are put in order. More elements
never move the one at a place back, so an element that is at its place in a list and in a
larger one is there in all between.
-/

namespace Rank

variable {α : Type} [LinearOrder α]

/-- The element at a place, counted from zero, in ascending order. -/
def nth (l : List α) (n : ℕ) : Option α := (l.insertionSort (· ≤ ·))[n]?

@[simp] theorem nth_nil (n : ℕ) : nth ([] : List α) n = none := rfl

variable {l l' l'' : List α} {n : ℕ} {x : α}

/-- **More elements move an element forward**, if at all. -/
theorem nth_mono (hl : l.Subperm l') (hx : nth l n = some x) : ∃ y ≤ x, nth l' n = some y := by
  have hsorted := List.pairwise_insertionSort (· ≤ ·) l'
  have hsub : (l.insertionSort (· ≤ ·)).Sublist (l'.insertionSort (· ≤ ·)) :=
    List.sublist_of_subperm_of_pairwise
      (((List.perm_insertionSort _ l).subperm.trans hl).trans
        (List.perm_insertionSort _ l').symm.subperm)
      (List.pairwise_insertionSort (· ≤ ·) l) hsorted
  obtain ⟨f, hf⟩ := List.sublist_iff_exists_orderEmbedding_getElem?_eq.mp hsub
  have hfx : (l'.insertionSort (· ≤ ·))[f n]? = some x := (hf n).symm.trans hx
  obtain ⟨hlt, hget⟩ := List.getElem?_eq_some_iff.mp hfx
  have hn : n ≤ f n := StrictMono.le_apply f.strictMono
  have hlt' : n < (l'.insertionSort (· ≤ ·)).length := hn.trans_lt hlt
  refine ⟨(l'.insertionSort (· ≤ ·))[n], ?_, List.getElem?_eq_getElem hlt'⟩
  rw [← hget]
  obtain heq | hlt'' := hn.eq_or_lt
  · exact (getElem_congr_idx heq).le
  · exact List.pairwise_iff_getElem.mp hsorted n (f n) hlt' hlt hlt''

/-- **An element between two that are one is that one.** -/
theorem nth_eq_of_subperm (hl : l.Subperm l') (hl' : l'.Subperm l'') (hx : nth l n = some x)
    (hx'' : nth l'' n = some x) : nth l' n = some x := by
  obtain ⟨y, hyx, hy⟩ := nth_mono hl hx
  obtain ⟨z, hzy, hz⟩ := nth_mono hl' hy
  obtain rfl : x = z := Option.some.inj (hx''.symm.trans hz)
  rw [hy, le_antisymm hyx hzy]

end Rank
