import Mathlib.Data.List.Basic

/-!
# Lists in chunks

A list is handled in chunks of a size, the last of which may be shorter. What is
done for each element of each chunk, one chunk after the other, is done for each
element of the list. A second list that is at least as long can be sliced along
the chunks of the first.
-/

namespace Chunks

variable {α β γ : Type} {n : ℕ} {xs : List α} {ys : List β}

/-- The chunk with a number. -/
def chunk (n : ℕ) (xs : List α) (i : ℕ) : List α := (xs.drop (i * n)).take n

/-- How many chunks there are. -/
def count (n : ℕ) (xs : List α) : ℕ := (xs.length + n - 1) / n

/-- The chunks of a list. -/
def chunks (n : ℕ) (xs : List α) : List (List α) := (List.range (count n xs)).map (chunk n xs)

/-- A slice of a list, if it is in range. -/
def slice (ys : List β) (offset length : ℕ) : Option (List β) :=
  if offset + length ≤ ys.length then some ((ys.drop offset).take length) else none

/-- The chunks before the last number cover the list. -/
theorem length_le_count_mul (hn : 1 ≤ n) (xs : List α) : xs.length ≤ count n xs * n := by
  have hlt := Nat.lt_div_mul_add (a := xs.length + n - 1) (b := n) (by omega)
  unfold count
  omega

/-- A chunk begins inside the list. -/
theorem mul_lt_length {i : ℕ} (hi : i < count n xs) : i * n < xs.length := by
  have hle : (i + 1) * n ≤ xs.length + n - 1 :=
    Nat.le_trans (Nat.mul_le_mul_right n hi) (Nat.div_mul_le_self _ n)
  rw [Nat.succ_mul] at hle
  obtain rfl | hn := Nat.eq_zero_or_pos n
  · rw [count, Nat.div_zero] at hi
    exact absurd hi (Nat.not_lt_zero i)
  · omega

/-- **The chunks of a list make up the list.** -/
theorem flatten_chunks (hn : 1 ≤ n) (xs : List α) : (chunks n xs).flatten = xs := by
  have htake : ∀ k, ((List.range k).map (chunk n xs)).flatten = xs.take (k * n) := by
    intro k
    induction k with
    | zero => simp
    | succ k ih =>
      rw [List.range_succ, List.map_append, List.flatten_append, ih, Nat.succ_mul, List.take_add]
      simp [chunk]
  rw [chunks, htake, List.take_of_length_le (length_le_count_mul hn xs)]

/-- The slice along a chunk of a list that is not longer is in range. -/
theorem slice_eq_some (hlength : xs.length ≤ ys.length) {i : ℕ} (hi : i < count n xs) :
    slice ys (i * n) (chunk n xs i).length
      = some ((ys.drop (i * n)).take (chunk n xs i).length) := by
  have hlt := mul_lt_length hi
  refine if_pos ?_
  rw [chunk, List.length_take, List.length_drop]
  omega

/-- The first of the elements that are paired are paired with the first. -/
theorem zipWith_take (f : α → β → γ) (n : ℕ) (xs : List α) (ys : List β) :
    List.zipWith f (xs.take n) ys = (List.zipWith f xs ys).take n := by
  induction xs generalizing n ys with
  | nil => simp
  | cons x xs ih =>
    cases n <;> cases ys <;> simp [ih]

/-- Elements that are paired with more are paired with as many. -/
theorem zipWith_take_length (f : α → β → γ) (xs : List α) (ys : List β) :
    List.zipWith f xs (ys.take xs.length) = List.zipWith f xs ys := by
  induction xs generalizing ys with
  | nil => simp
  | cons x xs ih =>
    cases ys <;> simp [ih]

/-- **Pairing the chunks of a list with the slices along them pairs the list.** -/
theorem flatten_zipWith_chunks (hn : 1 ≤ n) (f : α → β → γ) (hlength : xs.length ≤ ys.length) :
    ((List.range (count n xs)).map fun i =>
      List.zipWith f (chunk n xs i) ((ys.drop (i * n)).take (chunk n xs i).length)).flatten
        = List.zipWith f xs ys := by
  have hcount : count n xs = count n (List.zipWith f xs ys) := by
    simp [count, hlength]
  have hchunk : ∀ i, List.zipWith f (chunk n xs i) ((ys.drop (i * n)).take (chunk n xs i).length)
      = chunk n (List.zipWith f xs ys) i := fun i => by
    rw [zipWith_take_length, chunk, chunk, List.drop_zipWith, zipWith_take]
  rw [← flatten_chunks hn (List.zipWith f xs ys), chunks, ← hcount]
  exact congrArg List.flatten (List.map_congr_left fun i _ => hchunk i)

end Chunks
