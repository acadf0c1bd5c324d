import IntuitionCore.Library.Feed
import Mathlib.Data.List.Infix

/-!
# Batches that are delivered again

A reader that has applied a batch may fail to move its mark, and then polls
from the same mark again. In between the log may have grown, so what it polls
next begins with the batch it lost but need not end with it; and it may lose
that one too.

If the events that are lost absorb each other, nothing of this shows: the
state is at every moment an exact one to which a beginning of the next poll
has been applied, and applying the poll swallows that beginning.
-/

namespace Feed

section Redelivery

variable {ε κ ρ ν : Type} [DecidableEq κ] [DecidableEq ν] (pos : ε → ℕ) (L : Ledger ε κ ρ)
  (P : ε → Prop) (w : Reader ε ν)

/-- The log grows, and one reader applies batches, moving its mark after some
of them and not after others; the latter concern the keys it owns by events
that satisfy `P` only. -/
inductive LossyStep : State ε κ ρ ν → State ε κ ρ ν → Prop
  /-- Events are appended to the log. -/
  | grow {s : State ε κ ρ ν} (es : List ε) (hord : InOrder pos (s.log ++ es))
      (hpos : ∀ e ∈ es, 0 < pos e) : LossyStep s { s with log := s.log ++ es }
  /-- A batch is applied, and the mark moved. -/
  | saved {s : State ε κ ρ ν} (hcov : s.Covers L w) (hne : s.pollOf pos w ≠ []) :
      LossyStep s ((s.applyBatch L w.name (s.pollOf pos w)).setMark w.name
        (pos ((s.pollOf pos w).getLast hne)))
  /-- A batch is applied, and the mark is not moved. -/
  | lost {s : State ε κ ρ ν}
      (hP : ∀ k, s.owner k = some w.name → ∀ e ∈ s.pollOf pos w, L.concerns k e = true → P e) :
      LossyStep s (s.applyBatch L w.name (s.pollOf pos w))

/-- A state that was exact before a beginning of the next poll was applied. -/
def State.Ahead (s : State ε κ ρ ν) : Prop :=
  ∃ (s₀ : State ε κ ρ ν) (lost : List ε), s₀.Exact pos L ∧ lost <+: s₀.pollOf pos w ∧
    (∀ k, s₀.owner k = some w.name → ∀ e ∈ lost, L.concerns k e = true → P e) ∧
    s = s₀.applyBatch L w.name lost

variable {pos L P w} {s s' : State ε κ ρ ν}

/-- Nothing applied changes nothing. -/
theorem State.applyBatch_nil {name : ν} : s.applyBatch L name [] = s := by
  unfold State.applyBatch
  congr 1
  funext k
  exact ite_self _

theorem State.Exact.ahead (h : s.Exact pos L) : s.Ahead pos L P w :=
  ⟨s, [], h, List.nil_prefix, fun _ _ _ he => absurd he List.not_mem_nil,
    State.applyBatch_nil.symm⟩

/-- The log of a state that is ahead is in order. -/
theorem State.Ahead.inOrder (h : s.Ahead pos L P w) : InOrder pos s.log := by
  obtain ⟨s₀, lost, hexact, -, -, rfl⟩ := h
  exact hexact.inOrder

/-- A batch swallows a beginning of it that was applied before. -/
theorem State.applyBatch_applyBatch (hL : L.Absorbs P) {name : ν} {lost batch : List ε}
    (hpre : lost <+: batch)
    (hP : ∀ k, s.owner k = some name → ∀ e ∈ lost, L.concerns k e = true → P e) :
    (s.applyBatch L name lost).applyBatch L name batch = s.applyBatch L name batch := by
  obtain ⟨rest, rfl⟩ := hpre
  unfold State.applyBatch
  congr 1
  funext k
  show (if s.owner k = some name then L.apply k (if s.owner k = some name then _ else _) _
    else if s.owner k = some name then _ else _) = _
  by_cases hk : s.owner k = some name
  · rw [if_pos hk, if_pos hk, if_pos hk, hL.apply_again (hP k hk)]
  · rw [if_neg hk, if_neg hk, if_neg hk]

omit [DecidableEq κ] [DecidableEq ν] in
/-- What was polled before the log grew is a beginning of what is polled
after. -/
theorem poll_prefix_grow {wants : ε → Bool} {c n : ℕ} {log es : List ε} :
    poll pos wants c n log <+: poll pos wants c n (log ++ es) := by
  unfold poll after
  rw [List.filter_append, List.filter_append]
  exact List.IsPrefix.take (List.prefix_append _ _) n

/-- **A step, lossy or not, keeps a state that is ahead of an exact one
so.** -/
theorem State.Ahead.step (hL : L.Absorbs P) (h : s.Ahead pos L P w)
    (hs : LossyStep pos L P w s s') : s'.Ahead pos L P w := by
  obtain ⟨s₀, lost, hexact, hpre, hP, rfl⟩ := h
  cases hs with
  | grow es hord hpos =>
    exact ⟨{ s₀ with log := s₀.log ++ es }, lost, hexact.step (.grow es hord hpos),
      hpre.trans poll_prefix_grow, hP, rfl⟩
  | saved hcov hne =>
    have hnext := hexact.step (Step.batch (s := s₀) w hcov hne)
    rw [← State.applyBatch_applyBatch hL hpre hP] at hnext
    exact hnext.ahead
  | lost hP' =>
    exact ⟨s₀, _, hexact, List.prefix_rfl, hP', State.applyBatch_applyBatch hL hpre hP⟩

/-- A state that is ahead and has nothing left to poll is exact. -/
theorem State.Ahead.exact (h : s.Ahead pos L P w) (hdone : s.pollOf pos w = []) :
    s.Exact pos L := by
  obtain ⟨s₀, lost, hexact, hpre, -, rfl⟩ := h
  have hnil : lost = [] := List.prefix_nil.mp (hdone ▸ hpre)
  rw [hnil, State.applyBatch_nil]
  exact hexact

end Redelivery

end Feed
