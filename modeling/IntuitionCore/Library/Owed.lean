import Mathlib.Data.Set.Basic

/-!
# Owed work

A history is a list of commits, the last one first. Some commits mark keys, and
some settle them. A key is owed as long as it was marked and has not been settled
since, that is, if its last mark is later than the last commit that settles it.

Workers take work that is pending, and may fail. Nothing is lost as long as all that
is owed is pending or left to some worker.
-/

variable {γ κ : Type} {marks settles : γ → Set κ} {c : γ} {history : List γ} {k : κ}

/-- The keys that a commit of a history marks and none after it settles. -/
def Owed (marks settles : γ → Set κ) (history : List γ) : Set κ :=
  {k | ∃ newer c older, history = newer ++ c :: older ∧ k ∈ marks c ∧ ∀ d ∈ newer, k ∉ settles d}

namespace Owed

/-- Before anything is committed, nothing is owed. -/
@[simp] theorem nil : Owed marks settles [] = ∅ := by
  ext k
  simp [Owed]

/-- **A commit adds what it marks to what it does not settle.** -/
theorem mem_cons :
    k ∈ Owed marks settles (c :: history)
      ↔ k ∈ marks c ∨ k ∈ Owed marks settles history ∧ k ∉ settles c := by
  constructor
  · rintro ⟨newer, d, older, heq, hmark, hsettle⟩
    cases newer with
    | nil =>
      obtain ⟨rfl, -⟩ := List.cons.inj heq
      exact .inl hmark
    | cons b newer =>
      obtain ⟨rfl, rfl⟩ := List.cons.inj heq
      exact .inr ⟨⟨newer, d, older, rfl, hmark, fun e he => hsettle e (List.mem_cons_of_mem _ he)⟩,
        hsettle c List.mem_cons_self⟩
  · rintro (hmark | ⟨⟨newer, d, older, rfl, hmark, hsettle⟩, hc⟩)
    · exact ⟨[], c, history, rfl, hmark, fun d hd => absurd hd List.not_mem_nil⟩
    · refine ⟨c :: newer, d, older, rfl, hmark, fun e he => ?_⟩
      obtain rfl | he := List.mem_cons.mp he
      · exact hc
      · exact hsettle e he

/-- What is owed was marked. -/
theorem exists_mark (h : k ∈ Owed marks settles history) : ∃ c ∈ history, k ∈ marks c := by
  obtain ⟨newer, c, older, rfl, hmark, -⟩ := h
  exact ⟨c, List.mem_append_right _ List.mem_cons_self, hmark⟩

/-! ## Who has it -/

section Kept

variable {ι : Type} {owed owed' pending pending' : Set κ} {left left' : ι → Set κ} {i : ι}

/-- What is owed is pending, or left to some worker. -/
def Kept (owed pending : Set κ) (left : ι → Set κ) : Prop :=
  ∀ k ∈ owed, k ∈ pending ∨ ∃ i, k ∈ left i

/-- **What one worker does keeps the work that is owed**, if what was pending, and
what the worker had, is pending after it, or left to the worker, or to another
one. -/
theorem Kept.of_worker (h : Kept owed pending left) (hother : ∀ j ≠ i, left' j = left j)
    (howed : ∀ k ∈ owed', k ∈ owed)
    (hpending : ∀ k ∈ owed', k ∈ pending → k ∈ pending' ∨ k ∈ left' i)
    (hleft : ∀ k ∈ owed', k ∈ left i → k ∈ pending' ∨ k ∈ left' i ∨ ∃ j ≠ i, k ∈ left j) :
    Kept owed' pending' left' := by
  intro k hk
  obtain hk' | ⟨j, hj⟩ := h k (howed k hk)
  · exact (hpending k hk hk').imp_right fun hi => ⟨i, hi⟩
  · by_cases hji : j = i
    · subst hji
      obtain hd | hd | ⟨j', hj', hl⟩ := hleft k hk hj
      · exact .inl hd
      · exact .inr ⟨j, hd⟩
      · exact .inr ⟨j', (hother j' hj').symm ▸ hl⟩
    · exact .inr ⟨j, (hother j hji).symm ▸ hj⟩

/-- **A worker that drops what it has keeps the work exactly if all of it is pending
or left to others.** -/
theorem Kept.drop_iff (h : Kept owed pending left) (hother : ∀ j ≠ i, left' j = left j)
    (hnone : left' i = ∅) :
    Kept owed pending left'
      ↔ ∀ k ∈ owed, k ∈ left i → k ∈ pending ∨ ∃ j ≠ i, k ∈ left j := by
  constructor
  · intro hkept k hk _
    refine (hkept k hk).imp_right fun ⟨j, hj⟩ => ?_
    by_cases hji : j = i
    · subst hji
      rw [hnone] at hj
      exact hj.elim
    · exact ⟨j, hji, hother j hji ▸ hj⟩
  · intro hsafe
    exact h.of_worker hother (fun _ hk => hk) (fun _ _ hk => .inl hk)
      fun k hk hl => (hsafe k hk hl).imp_right .inr

end Kept

end Owed
