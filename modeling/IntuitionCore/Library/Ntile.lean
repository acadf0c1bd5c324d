import Mathlib.Data.List.Basic
import Mathlib.Data.List.Sort

/-!
# Tiles

`NTILE(k)` over a window puts the rows of the window, in their order, into `k` tiles of equal
size; where they do not come out even, the first tiles have one row more. Rows of equal rank
stand in any order. A row of lower rank than another is never in a later tile, and in a window
with a row for each tile the first row is in the first tile and the last in the last.
-/

/-- The tile of the row at a position, counted from zero, where the first tiles, some of them,
have one row more than the others. -/
def tileAt (size larger i : ℕ) : ℕ :=
  if i < larger * (size + 1) then i / (size + 1) + 1
  else larger + (i - larger * (size + 1)) / size + 1

/-- The tile, of `k`, of the row at a position of `n`. -/
def ntile (k n i : ℕ) : ℕ := tileAt (n / k) (n % k) i

section Tiles

variable {size larger k n i j : ℕ}

theorem tileAt_of_lt (h : i < larger * (size + 1)) : tileAt size larger i = i / (size + 1) + 1 :=
  if_pos h

theorem tileAt_of_le (h : larger * (size + 1) ≤ i) :
    tileAt size larger i = larger + (i - larger * (size + 1)) / size + 1 :=
  if_neg (Nat.not_lt.mpr h)

/-- A position in the larger tiles is in one of them. -/
theorem tileAt_le_larger (h : i < larger * (size + 1)) : tileAt size larger i ≤ larger := by
  rw [tileAt_of_lt h]
  exact Nat.div_lt_of_lt_mul (by rwa [Nat.mul_comm])

theorem ntile_pos : 1 ≤ ntile k n i := by
  unfold ntile tileAt
  split <;> exact Nat.le_add_left 1 _

/-- A later row is in no earlier tile. -/
theorem ntile_mono (h : i ≤ j) : ntile k n i ≤ ntile k n j := by
  unfold ntile
  obtain hj | hj := Nat.lt_or_ge j (n % k * (n / k + 1))
  · rw [tileAt_of_lt hj, tileAt_of_lt (h.trans_lt hj)]
    exact Nat.add_le_add_right (Nat.div_le_div_right h) 1
  · obtain hi | hi := Nat.lt_or_ge i (n % k * (n / k + 1))
    · refine (tileAt_le_larger hi).trans ?_
      rw [tileAt_of_le hj, Nat.add_assoc]
      exact Nat.le_add_right _ _
    · rw [tileAt_of_le hj, tileAt_of_le hi]
      have hdiv := Nat.div_le_div_right (c := n / k)
        (Nat.sub_le_sub_right h (n % k * (n / k + 1)))
      exact Nat.add_le_add_right (Nat.add_le_add_left hdiv _) 1

/-- The rows are those of the larger tiles and those of the others. -/
theorem eq_larger_add_smaller (hk : 0 < k) :
    n = n % k * (n / k + 1) + n / k * (k - n % k) := by
  obtain ⟨d, hd⟩ := Nat.exists_eq_add_of_le (Nat.mod_lt n hk).le
  have hsum := Nat.div_add_mod n k
  have hd' : k - n % k = d := by omega
  calc n = k * (n / k) + n % k := hsum.symm
    _ = (n % k + d) * (n / k) + n % k := by rw [← hd]
    _ = n % k * (n / k + 1) + n / k * d := by
      rw [Nat.add_mul, Nat.mul_add, Nat.mul_one, Nat.mul_comm d]
      omega
    _ = n % k * (n / k + 1) + n / k * (k - n % k) := by rw [hd']

/-- There are no more tiles. -/
theorem ntile_le (hk : 0 < k) (hi : i < n) : ntile k n i ≤ k := by
  have hmod := Nat.mod_lt n hk
  unfold ntile
  obtain hlarger | hlarger := Nat.lt_or_ge i (n % k * (n / k + 1))
  · exact (tileAt_le_larger hlarger).trans hmod.le
  · rw [tileAt_of_le hlarger]
    have hsum := eq_larger_add_smaller (n := n) hk
    have hdiv : (i - n % k * (n / k + 1)) / (n / k) < k - n % k :=
      Nat.div_lt_of_lt_mul (by omega)
    omega

theorem ntile_zero : ntile k n 0 = 1 := by
  unfold ntile
  obtain hlarger | hlarger := Nat.lt_or_ge 0 (n % k * (n / k + 1))
  · rw [tileAt_of_lt hlarger, Nat.zero_div]
  · have hmod : n % k = 0 := by
      by_contra hne
      exact absurd (Nat.mul_pos (Nat.pos_of_ne_zero hne) (Nat.succ_pos (n / k)))
        (Nat.not_lt.mpr hlarger)
    rw [tileAt_of_le hlarger, hmod, Nat.zero_mul, Nat.sub_zero, Nat.zero_div]

/-- The last row is in the last tile, if there is a row for each. -/
theorem ntile_last (hk : 0 < k) (hn : k ≤ n) : ntile k n (n - 1) = k := by
  have hmod := Nat.mod_lt n hk
  have hsize : 0 < n / k := Nat.div_pos hn hk
  have hsum := eq_larger_add_smaller (n := n) hk
  have hsmaller : n / k ≤ n / k * (k - n % k) :=
    Nat.le_mul_of_pos_right _ (Nat.sub_pos_of_lt hmod)
  have hdiv : (n - 1 - n % k * (n / k + 1)) / (n / k) = k - n % k - 1 := by
    refine (Nat.div_eq_iff hsize).mpr ?_
    rw [Nat.sub_mul, Nat.one_mul, Nat.mul_comm (k - n % k)]
    omega
  unfold ntile
  rw [tileAt_of_le (by omega), hdiv]
  omega

end Tiles

/-! ## Windows -/

section Windows

variable {α ω : Type} [LinearOrder ω]

/-- An order of rows by their ranks; where ranks are equal, it may be any. -/
structure WindowOrder (rows : List α) (rank : α → ω) where
  order : List α
  perm : order.Perm rows
  sorted : order.Pairwise fun a b => rank a ≤ rank b

/-- There is an order. -/
def WindowOrder.mergeSort (rows : List α) (rank : α → ω) : WindowOrder rows rank where
  order := rows.mergeSort fun a b => rank a ≤ rank b
  perm := List.mergeSort_perm _ _
  sorted := List.pairwise_mergeSort' (Order.Preimage rank (· ≤ ·)) rows

namespace WindowOrder

variable [DecidableEq α] {rows : List α} {rank : α → ω} {k : ℕ} {a b : α}

/-- The tile of a row. -/
def tile (w : WindowOrder rows rank) (k : ℕ) (a : α) : ℕ :=
  ntile k w.order.length (w.order.idxOf a)

variable (w : WindowOrder rows rank)

theorem idxOf_lt (ha : a ∈ rows) : w.order.idxOf a < w.order.length :=
  List.idxOf_lt_length_of_mem (w.perm.mem_iff.mpr ha)

theorem tile_pos : 1 ≤ w.tile k a := ntile_pos

theorem tile_le (hk : 0 < k) (ha : a ∈ rows) : w.tile k a ≤ k := ntile_le hk (w.idxOf_lt ha)

/-- **A row of lower rank is in no later tile**, in whatever order equal ranks stand. -/
theorem tile_le_tile (ha : a ∈ rows) (hb : b ∈ rows) (h : rank a < rank b) :
    w.tile k a ≤ w.tile k b := by
  refine ntile_mono (Nat.le_of_not_lt fun hlt => ?_)
  have hsorted := List.pairwise_iff_getElem.mp w.sorted _ _ (w.idxOf_lt hb) (w.idxOf_lt ha) hlt
  rw [List.getElem_idxOf, List.getElem_idxOf] at hsorted
  exact absurd hsorted (not_le.mpr h)

/-- **Some row of least rank is in the first tile, and one of greatest rank in the last**, if
there is a row for each tile. -/
theorem exists_first_last (hk : 0 < k) (hlength : k ≤ rows.length) (hnodup : rows.Nodup) :
    ∃ a ∈ rows, ∃ b ∈ rows, w.tile k a = 1 ∧ w.tile k b = k
      ∧ ∀ c ∈ rows, rank a ≤ rank c ∧ rank c ≤ rank b := by
  have hpos : 0 < w.order.length := by
    rw [w.perm.length_eq]
    omega
  have hnodup' : w.order.Nodup := w.perm.nodup_iff.mpr hnodup
  have hsorted := List.pairwise_iff_getElem.mp w.sorted
  refine ⟨w.order[0], w.perm.mem_iff.mp (List.getElem_mem hpos),
    w.order[w.order.length - 1], w.perm.mem_iff.mp (List.getElem_mem (by omega)), ?_, ?_, ?_⟩
  · unfold tile
    rw [hnodup'.idxOf_getElem]
    exact ntile_zero
  · unfold tile
    rw [hnodup'.idxOf_getElem]
    exact ntile_last hk (by rwa [w.perm.length_eq])
  · intro c hc
    obtain ⟨i, hi, rfl⟩ := List.getElem_of_mem (w.perm.mem_iff.mpr hc)
    constructor
    · obtain rfl | hzero := Nat.eq_zero_or_pos i
      · exact le_rfl
      · exact hsorted 0 i hpos hi hzero
    · obtain heq | hlt := Nat.eq_or_lt_of_le (Nat.le_sub_one_of_lt hi)
      · simp [heq]
      · exact hsorted i (w.order.length - 1) hi (by omega) hlt

end WindowOrder

end Windows
