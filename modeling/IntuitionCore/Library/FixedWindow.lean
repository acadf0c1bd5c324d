import Mathlib.Data.List.Basic
import Mathlib.Order.Nat

/-!
# Fixed windows

Hits are counted in windows of a fixed length. A window opens with the first hit that the
one before does not cover, and does not move. Only the current window is kept.

Whatever the times of the hits, the windows do not overlap, and the hits of each are
counted one by one from the first.
-/

/-- A window: how many hits it has, and when it ends. -/
structure FixedWindow where
  used : ℕ
  ends : ℕ
  deriving DecidableEq, Repr

namespace FixedWindow

variable (length : ℕ)

/-- The window at a time, which is a new one if the last one has ended. -/
def current (w : FixedWindow) (now : ℕ) : FixedWindow :=
  if w.ends ≤ now then ⟨0, now + length⟩ else w

/-- Count a hit. -/
def hit (w : FixedWindow) (now : ℕ) : FixedWindow :=
  { current length w now with used := (current length w now).used + 1 }

/-- Count some hits: the window after each of them. -/
def hits : FixedWindow → List ℕ → List FixedWindow
  | _, [] => []
  | w, now :: times => hit length w now :: hits (hit length w now) times

variable {length} {w v : FixedWindow} {now : ℕ} {times : List ℕ}

variable (length) in
/-- **A hit falls in the window, or opens another one after it has ended.** -/
theorem hit_cases (w : FixedWindow) (now : ℕ) :
    (now < w.ends ∧ hit length w now = ⟨w.used + 1, w.ends⟩)
      ∨ (w.ends ≤ now ∧ hit length w now = ⟨1, now + length⟩) := by
  unfold hit current
  by_cases h : w.ends ≤ now
  · rw [if_pos h]
    exact .inr ⟨h, rfl⟩
  · rw [if_neg h]
    exact .inl ⟨Nat.lt_of_not_le h, rfl⟩

/-- The windows of later hits are the current one, or begin after it. -/
theorem ends_of_mem_hits (h : v ∈ hits length w times) :
    v.ends = w.ends ∨ w.ends + length ≤ v.ends := by
  induction times generalizing w with
  | nil => exact absurd h List.not_mem_nil
  | cons now times ih =>
    have hhit : (hit length w now).ends = w.ends ∨ w.ends + length ≤ (hit length w now).ends := by
      obtain ⟨-, heq⟩ | ⟨hle, heq⟩ := hit_cases length w now
      · exact .inl (by rw [heq])
      · exact .inr (by rw [heq]; exact Nat.add_le_add_right hle length)
    obtain rfl | hv := List.mem_cons.mp h
    · exact hhit
    · obtain heq | hle := ih hv
      · exact heq ▸ hhit
      · obtain heq' | hle' := hhit
        · exact .inr (heq' ▸ hle)
        · exact .inr (hle'.trans ((Nat.le_add_right _ _).trans hle))

@[simp] theorem length_hits (w : FixedWindow) (times : List ℕ) :
    (hits length w times).length = times.length := by
  induction times generalizing w with
  | nil => rfl
  | cons now times ih => exact congrArg (· + 1) (ih _)

variable (length) in
/-- **Windows do not overlap.** -/
theorem pairwise_hits (w : FixedWindow) (times : List ℕ) :
    (hits length w times).Pairwise fun v v' => v'.ends = v.ends ∨ v.ends + length ≤ v'.ends := by
  induction times generalizing w with
  | nil => exact .nil
  | cons now times ih => exact .cons (fun v hv => ends_of_mem_hits hv) (ih _)

/-- A window that has ended gets no more hits. -/
theorem filter_hits_of_ended (hlength : 0 < length) (hended : w.ends ≤ now) (times : List ℕ) :
    (hits length (hit length w now) times).filter (fun v => v.ends = w.ends) = [] := by
  refine List.filter_eq_nil_iff.mpr fun v hv heq => ?_
  have hends : now + length ≤ v.ends := by
    obtain ⟨hlt, -⟩ | ⟨-, hhit⟩ := hit_cases length w now
    · exact absurd hlt (Nat.not_lt.mpr hended)
    · have hlater := ends_of_mem_hits hv
      rw [hhit] at hlater
      obtain heq' | hle := hlater
      · exact heq'.ge
      · exact (Nat.le_add_right _ _).trans hle
  rw [of_decide_eq_true heq] at hends
  exact absurd (hends.trans hended) (Nat.not_le.mpr (Nat.lt_add_of_pos_right hlength))

/-- **The hits of each window are counted one by one**, those of the current one from where
it is. -/
theorem used_hits (hlength : 0 < length) (w : FixedWindow) (times : List ℕ) (last : ℕ) :
    ∃ n, ((hits length w times).filter fun v => v.ends = last).map used
      = List.range' ((if last = w.ends then w.used else 0) + 1) n := by
  induction times generalizing w with
  | nil => exact ⟨0, rfl⟩
  | cons now times ih =>
    obtain ⟨n, hn⟩ := ih (hit length w now)
    rw [hits, List.filter_cons]
    obtain ⟨-, hhit⟩ | ⟨hended, hhit⟩ := hit_cases length w now
    · -- the hit falls in the current window
      rw [hhit] at hn ⊢
      by_cases hlast : last = w.ends
      · rw [if_pos hlast] at hn ⊢
        refine ⟨n + 1, ?_⟩
        rw [if_pos (decide_eq_true hlast.symm), List.map_cons, hn, List.range'_succ]
      · rw [if_neg hlast] at hn ⊢
        refine ⟨n, ?_⟩
        rw [if_neg (by simpa using Ne.symm hlast), hn]
    · -- the hit opens another window
      by_cases hlast : last = w.ends
      · refine ⟨0, ?_⟩
        have hne : ¬ (hit length w now).ends = last := by
          rw [hhit, hlast]
          exact (hended.trans_lt (Nat.lt_add_of_pos_right hlength)).ne'
        rw [if_neg (by simpa using hne), hlast, filter_hits_of_ended hlength hended]
        rfl
      · rw [if_neg hlast]
        rw [hhit] at hn ⊢
        by_cases hnew : last = now + length
        · refine ⟨n + 1, ?_⟩
          rw [if_pos hnew] at hn
          rw [if_pos (decide_eq_true hnew.symm), List.map_cons, hn, List.range'_succ]
        · refine ⟨n, ?_⟩
          rw [if_neg hnew] at hn
          rw [if_neg (by simpa using Ne.symm hnew), hn]

/-- **A hit is in its window**, where time goes on and the window is open by then. -/
theorem mem_zip_hits (hlength : 0 < length) {times : List ℕ} (htimes : times.Pairwise (· ≤ ·))
    (hopen : ∀ now ∈ times, w.ends ≤ now + length) {p : ℕ × FixedWindow}
    (hp : p ∈ times.zip (hits length w times)) :
    p.1 < p.2.ends ∧ p.2.ends ≤ p.1 + length := by
  induction times generalizing w with
  | nil => exact absurd hp List.not_mem_nil
  | cons now times ih =>
    obtain ⟨hfirst, htimes⟩ := List.pairwise_cons.mp htimes
    obtain ⟨hnow, hopen⟩ := List.forall_mem_cons.mp hopen
    have hhit : now < (hit length w now).ends ∧ (hit length w now).ends ≤ now + length := by
      obtain ⟨hlt, heq⟩ | ⟨-, heq⟩ := hit_cases length w now
      · rw [heq]
        exact ⟨hlt, hnow⟩
      · rw [heq]
        exact ⟨Nat.lt_add_of_pos_right hlength, le_rfl⟩
    rw [hits, List.zip_cons_cons] at hp
    obtain rfl | hp := List.mem_cons.mp hp
    · exact hhit
    · refine ih htimes (fun later hlater => hhit.2.trans ?_) hp
      exact Nat.add_le_add_right (hfirst later hlater) length

end FixedWindow
