import Mathlib.Data.Finset.Sort

/-!
# Pages by keyset

Rows in the order of their keys are read in pages. A page has the first rows after a cursor,
and the cursor then is the last key of the page, if there is one: what is after it are the
rows that are not read yet.
-/

namespace Keyset

variable {κ : Type} [LinearOrder κ] {cursor : Option κ} {keys : List κ} {k : κ}

/-- A key is after a cursor; without a cursor every key is. -/
def IsAfter (cursor : Option κ) (k : κ) : Prop := ∀ c ∈ cursor, c < k

instance (cursor : Option κ) (k : κ) : Decidable (IsAfter cursor k) :=
  inferInstanceAs (Decidable (∀ c ∈ cursor, c < k))

/-- Keys in their order. -/
def inOrder (keys : Finset κ) : List κ := keys.sort

@[simp] theorem mem_inOrder {keys : Finset κ} : k ∈ inOrder keys ↔ k ∈ keys := Finset.mem_sort _

theorem sortedLT_inOrder (keys : Finset κ) : (inOrder keys).SortedLT := Finset.sortedLT_sort keys

/-- The cursor after a page. -/
def next (cursor : Option κ) (page : List κ) : Option κ := page.getLast? <|> cursor

/-- A page moves the cursor forward. -/
theorem IsAfter.of_next {page : List κ} (h : IsAfter (next cursor page) k)
    (hpage : ∀ k ∈ page, IsAfter cursor k) : IsAfter cursor k := by
  unfold next at h
  cases hl : page.getLast? with
  | none => rwa [hl] at h
  | some c =>
    rw [hl] at h
    exact fun c₀ hc₀ => (hpage c (List.mem_of_getLast? hl) c₀ hc₀).trans (h c rfl)

/-- **What is after a page are the keys that it leaves.** -/
theorem mem_drop_iff (hkeys : keys.SortedLT) (hafter : ∀ k ∈ keys, IsAfter cursor k) (n : ℕ) :
    k ∈ keys.drop n ↔ k ∈ keys ∧ IsAfter (next cursor (keys.take n)) k := by
  have hsplit := hkeys.pairwise
  rw [← List.take_append_drop n keys, List.pairwise_append] at hsplit
  obtain ⟨htake, -, hcross⟩ := hsplit
  unfold next
  cases hl : (keys.take n).getLast? with
  | none =>
    have hnil : keys.take n = [] := List.getLast?_eq_none_iff.mp hl
    have hdrop : keys.drop n = keys := by
      have happend := List.take_append_drop n keys
      rwa [hnil, List.nil_append] at happend
    rw [hdrop]
    exact ⟨fun hk => ⟨hk, hafter k hk⟩, fun hk => hk.1⟩
  | some c =>
    have hc : c ∈ keys.take n := List.mem_of_getLast? hl
    constructor
    · intro hk
      refine ⟨List.mem_of_mem_drop hk, ?_⟩
      rintro _ ⟨⟩
      exact hcross c hc k hk
    · rintro ⟨hk, hlt⟩
      rw [← List.take_append_drop n keys, List.mem_append] at hk
      refine hk.resolve_left fun hk => ?_
      -- no key of the page is after its last one
      obtain ⟨init, hinit⟩ := List.getLast?_eq_some_iff.mp hl
      rw [hinit, List.pairwise_append] at htake
      rw [hinit, List.mem_append, List.mem_singleton] at hk
      obtain hk | rfl := hk
      · exact lt_asymm (hlt c rfl) (htake.2.2 k hk c (List.mem_singleton_self c))
      · exact lt_irrefl k (hlt k rfl)

end Keyset
