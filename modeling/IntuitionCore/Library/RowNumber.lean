import Mathlib.Data.Finset.Card
import Mathlib.Order.Interval.Finset.Nat

/-!
# Row numbers

`ROW_NUMBER()` over a window numbers its rows from one on, those of higher rank first. Rows of
equal rank are numbered in any order, so a query has several results; in each of them a window
of no more than `n` rows has no row after number `n`.
-/

variable {κ ω : Type} [LinearOrder ω]

/-- Numbers of the rows of a window, in descending order of their ranks. -/
structure RowNumbers (s : Finset κ) (rank : κ → ω) where
  number : κ → ℕ
  mem_Icc : ∀ k ∈ s, number k ∈ Finset.Icc 1 s.card
  injOn : Set.InjOn number s
  descending : ∀ k ∈ s, ∀ k' ∈ s, rank k' < rank k → number k < number k'

/-- Numbers for any window. -/
abbrev RowNumbering (κ ω : Type) [LinearOrder ω] : Type :=
  ∀ (s : Finset κ) (rank : κ → ω), RowNumbers s rank

namespace RowNumbers

/-- **A small window has only small numbers.** -/
theorem number_le {s : Finset κ} {rank : κ → ω} (w : RowNumbers s rank) {k : κ} {n : ℕ}
    (hk : k ∈ s) (hn : s.card ≤ n) : w.number k ≤ n :=
  (Finset.mem_Icc.mp (w.mem_Icc k hk)).2.trans hn

section ByKey

variable [LinearOrder κ] {s : Finset κ} {rank : κ → ω} {k k' : κ}

/-- The rows that stand before one, if equal ranks are in the order of the keys. -/
def before (s : Finset κ) (rank : κ → ω) (k : κ) : Finset κ :=
  s.filter fun k' => rank k < rank k' ∨ rank k' = rank k ∧ k' < k

theorem mem_before :
    k' ∈ before s rank k ↔ k' ∈ s ∧ (rank k < rank k' ∨ rank k' = rank k ∧ k' < k) :=
  Finset.mem_filter

/-- What stands before a row stands before those after it. -/
theorem before_ssubset (hk : k ∈ before s rank k') : before s rank k ⊂ before s rank k' := by
  obtain ⟨hmem, hlt⟩ := mem_before.mp hk
  refine Finset.ssubset_iff_subset_ne.mpr ⟨fun x hx => ?_, fun heq => ?_⟩
  · obtain ⟨hxs, hxk⟩ := mem_before.mp hx
    refine mem_before.mpr ⟨hxs, ?_⟩
    obtain hrank | ⟨hrank, hkey⟩ := hxk
    · obtain hrank' | ⟨hrank', -⟩ := hlt
      · exact .inl (hrank'.trans hrank)
      · exact .inl (hrank' ▸ hrank)
    · obtain hrank' | ⟨hrank', hkey'⟩ := hlt
      · exact .inl (hrank ▸ hrank')
      · exact .inr ⟨hrank.trans hrank', hkey.trans hkey'⟩
  · have hself : k ∈ before s rank k := heq ▸ hk
    obtain hrank | ⟨-, hkey⟩ := (mem_before.mp hself).2
    · exact lt_irrefl _ hrank
    · exact lt_irrefl _ hkey

/-- There are numbers. -/
def byKey (s : Finset κ) (rank : κ → ω) : RowNumbers s rank where
  number k := (before s rank k).card + 1
  mem_Icc k hk := by
    refine Finset.mem_Icc.mpr ⟨Nat.le_add_left 1 _, Finset.card_lt_card ?_⟩
    refine Finset.ssubset_iff_subset_ne.mpr ⟨Finset.filter_subset _ s, fun heq => ?_⟩
    have hself : k ∈ before s rank k := heq.symm ▸ hk
    exact (before_ssubset hself).ne rfl
  injOn k hk k' hk' heq := by
    by_contra hne
    have hlt : k ∈ before s rank k' ∨ k' ∈ before s rank k := by
      rw [mem_before, mem_before]
      obtain hrank | hrank | hrank := lt_trichotomy (rank k) (rank k')
      · exact .inr ⟨hk', .inl hrank⟩
      · obtain hkey | hkey := lt_or_gt_of_ne hne
        · exact .inl ⟨hk, .inr ⟨hrank, hkey⟩⟩
        · exact .inr ⟨hk', .inr ⟨hrank.symm, hkey⟩⟩
      · exact .inl ⟨hk, .inl hrank⟩
    have hcard := Nat.succ_injective heq
    obtain h | h := hlt
    · exact (Finset.card_lt_card (before_ssubset h)).ne hcard
    · exact (Finset.card_lt_card (before_ssubset h)).ne hcard.symm
  descending k hk k' hk' hrank :=
    Nat.succ_lt_succ (Finset.card_lt_card (before_ssubset (mem_before.mpr ⟨hk, .inl hrank⟩)))

end ByKey

end RowNumbers
