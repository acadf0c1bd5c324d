import IntuitionCore.Resilience.CircuitBreaker
import Mathlib.Data.List.Basic
import Mathlib.Data.List.Induction
import Mathlib.Data.Nat.Basic

/-!
# Failed probes

A probe that fails opens the circuit again, with a longer interval. The interval is not
counted from the failure: the time of opening is kept on purpose, so that the window in which
a database may recover does not slide forward. The next probe is let through as soon as the
new interval has passed since the circuit was last closed, which may be much less than the
interval after the probe that failed.
-/

namespace CircuitBreaker

variable {cb : CircuitBreaker} {inner inner' : Inner} {now rand wait openedAt : ℕ}
  {s s' : InUse} {call : Call} {calls : List Call}

/-- The circuit opened at a time, in the course of some calls, and was not closed since. -/
def OpenSince (cb : CircuitBreaker) (calls : List Call) (openedAt : ℕ) : Prop :=
  ∃ before opening after, calls = before ++ opening :: after
    ∧ (∃ s, Run.follow cb.step cb.start before = some s ∧ s.inner.state = .closed)
    ∧ (∃ s, Run.follow cb.step cb.start (before ++ [opening]) = some s ∧ s.clock = openedAt)
    ∧ ∀ done rest, after = done ++ rest →
      ∃ s, Run.follow cb.step cb.start (before ++ opening :: done) = some s
        ∧ s.inner.state ≠ .closed

/-- The circuit opened in the past. -/
def OpenedInPast (s : InUse) : Prop := ∀ t ∈ s.inner.openedAt, t ≤ s.clock

/-! ## What a step can do -/

/-- Time goes on. -/
theorem clock_of_step (hstep : cb.step s call = some s') : s'.clock = s.clock + call.wait := by
  obtain ⟨wait, op⟩ := call
  cases op with
  | check =>
    obtain ⟨⟨answer, inner'⟩, -, rfl⟩ := Option.map_eq_some_iff.mp hstep
    cases answer <;> rfl
  | recordSuccess =>
    cases hstep
    rfl
  | recordFailure rand =>
    cases hstep
    rfl

/-- **What a check of an open circuit answers**: a probe is let through if the interval has
passed since the opening, and then the circuit is half-open; otherwise nothing changes. -/
theorem check_of_opened {answer : Except CircuitOpen Unit} (hopened : inner.state = .opened)
    (hpast : ∀ t ∈ inner.openedAt, t ≤ now) (h : cb.check inner now = some (answer, inner')) :
    ∃ openedAt, inner.openedAt = some openedAt
      ∧ ((answer = .ok () ∧ inner' = { inner with state := .halfOpen }
          ∧ openedAt + inner.probeInterval ≤ now)
        ∨ ((∃ e, answer = .error e) ∧ inner' = inner)) := by
  unfold CircuitBreaker.check at h
  simp only [hopened] at h
  obtain ⟨t, ht, h⟩ := Option.bind_eq_some_iff.mp h
  refine ⟨t, ht, ?_⟩
  have hle := hpast t ht
  split at h
  case isTrue hdue =>
    cases h
    exact .inl ⟨rfl, rfl, by omega⟩
  case isFalse =>
    cases h
    exact .inr ⟨⟨_, rfl⟩, rfl⟩

/-- A call leaves an open circuit as it is, or is the first probe that is due. -/
theorem step_of_opened (hopened : s.inner.state = .opened) (hpast : OpenedInPast s)
    (hstep : cb.step s call = some s') :
    (s'.inner.state = .opened ∧ s'.inner.openedAt = s.inner.openedAt
        ∧ s'.inner.probeInterval = s.inner.probeInterval)
      ∨ ∃ openedAt, s.inner.openedAt = some openedAt
        ∧ openedAt + s.inner.probeInterval ≤ s'.clock := by
  have hclock := clock_of_step hstep
  obtain ⟨wait, op⟩ := call
  cases op with
  | check =>
    obtain ⟨⟨answer, inner'⟩, hcheck, rfl⟩ := Option.map_eq_some_iff.mp hstep
    obtain ⟨t, ht, ⟨rfl, rfl, hdue⟩ | ⟨⟨e, rfl⟩, rfl⟩⟩ :=
      check_of_opened hopened (fun t ht => (hpast t ht).trans (Nat.le_add_right _ _)) hcheck
    · exact .inr ⟨t, ht, hdue⟩
    · exact .inl ⟨hopened, rfl, rfl⟩
  | recordSuccess =>
    cases hstep
    simp [recordSuccess, hopened]
  | recordFailure rand =>
    cases hstep
    simp [recordFailure, hopened]

/-- A call sets the time of opening to its own, or clears it, or keeps it. -/
theorem openedAt_of_step (hstep : cb.step s call = some s') :
    s'.inner.openedAt = s.inner.openedAt ∨ s'.inner.openedAt = none
      ∨ s'.inner.openedAt = some s'.clock := by
  obtain ⟨wait, op⟩ := call
  cases op with
  | check =>
    obtain ⟨⟨answer, inner'⟩, hcheck, rfl⟩ := Option.map_eq_some_iff.mp hstep
    obtain ⟨-, rfl, rfl⟩ | ⟨-, rfl, rfl⟩ | ⟨-, ⟨e, rfl⟩, rfl⟩ := check_cases hcheck <;>
      exact .inl rfl
  | recordSuccess =>
    cases hstep
    unfold recordSuccess
    split
    · exact .inr (.inl rfl)
    · exact .inl rfl
  | recordFailure rand =>
    cases hstep
    unfold recordFailure
    cases s.inner.state with
    | closed =>
      simp only
      split
      · exact .inr (.inr rfl)
      · exact .inl rfl
    | opened => exact .inl rfl
    | halfOpen => exact .inl rfl

theorem OpenedInPast.step (h : OpenedInPast s) (hstep : cb.step s call = some s') :
    OpenedInPast s' := by
  intro t ht
  rw [clock_of_step hstep]
  obtain heq | heq | heq := openedAt_of_step hstep
  · exact (h t (heq ▸ ht)).trans (Nat.le_add_right _ _)
  · rw [heq] at ht
    cases ht
  · rw [heq, clock_of_step hstep] at ht
    exact (Option.some.inj ht).ge

theorem openedInPast_of_follow (hs : Run.follow cb.step cb.start calls = some s) :
    OpenedInPast s :=
  Run.invariant_of_follow (fun _ _ _ h hstep => h.step hstep) hs nofun

/-! ## Since when a circuit is open -/

/-- A circuit that opens keeps the time; one that stays open or half-open keeps the time it
opened at. -/
theorem openedAt_of_open (hstep : cb.step s call = some s') (hopen : s'.inner.state ≠ .closed) :
    s'.inner.openedAt = if s.inner.state = .closed then some s'.clock else s.inner.openedAt := by
  obtain ⟨wait, op⟩ := call
  cases op with
  | check =>
    obtain ⟨⟨answer, inner'⟩, hcheck, rfl⟩ := Option.map_eq_some_iff.mp hstep
    obtain ⟨-, rfl, rfl⟩ | ⟨hopened, rfl, rfl⟩ | ⟨hopened, ⟨e, rfl⟩, rfl⟩ := check_cases hcheck
    · rw [if_neg hopen]
    · rw [if_neg (by simp [hopened])]
    · rw [if_neg (by simp [hopened])]
  | recordSuccess =>
    cases hstep
    unfold recordSuccess at hopen ⊢
    split at hopen
    case isTrue => exact absurd rfl hopen
    case isFalse hhalf =>
      rw [if_neg hhalf]
      exact (if_neg hopen).symm
  | recordFailure rand =>
    cases hstep
    unfold recordFailure at hopen ⊢
    cases hstate : s.inner.state with
    | closed =>
      simp only [hstate] at hopen ⊢
      split at hopen
      case isTrue hreached => rw [if_pos hreached, if_pos trivial]
      case isFalse => exact absurd rfl hopen
    | opened => simp
    | halfOpen => simp

/-- A call after which the circuit is still not closed. -/
theorem OpenSince.snoc (h : OpenSince cb calls openedAt)
    (hs' : Run.follow cb.step cb.start (calls ++ [call]) = some s')
    (hopen : s'.inner.state ≠ .closed) : OpenSince cb (calls ++ [call]) openedAt := by
  obtain ⟨before, opening, after, rfl, hclosed, hopened, hsince⟩ := h
  refine ⟨before, opening, after ++ [call], by simp, hclosed, hopened, fun done rest hsplit => ?_⟩
  obtain rfl | ⟨rest, last, rfl⟩ := List.eq_nil_or_concat' rest
  · rw [List.append_nil] at hsplit
    subst hsplit
    exact ⟨s', by simpa using hs', hopen⟩
  · rw [← List.append_assoc] at hsplit
    obtain ⟨hafter, -⟩ := List.append_inj' hsplit rfl
    exact hsince done rest hafter

/-- **The time that is kept is that of the opening**: a circuit that is not closed opened at
it, and was not closed since. -/
theorem openSince_of_follow (hs : Run.follow cb.step cb.start calls = some s)
    (hopen : s.inner.state ≠ .closed) :
    ∃ openedAt, s.inner.openedAt = some openedAt ∧ OpenSince cb calls openedAt := by
  induction calls using List.reverseRecOn generalizing s with
  | nil =>
    cases hs
    exact absurd rfl hopen
  | append_singleton calls call ih =>
    have hsnoc := hs
    rw [Run.follow_append] at hs
    obtain ⟨r, hr, hstep⟩ := Option.bind_eq_some_iff.mp hs
    obtain ⟨r', hr', hend⟩ := Option.bind_eq_some_iff.mp hstep
    cases hend
    have hkept := openedAt_of_open hr' hopen
    by_cases hclosed : r.inner.state = .closed
    · -- the call opened the circuit
      rw [if_pos hclosed] at hkept
      refine ⟨_, hkept, calls, call, [], by simp, ⟨r, hr, hclosed⟩, ⟨s, hsnoc, rfl⟩, ?_⟩
      intro done rest hsplit
      obtain ⟨rfl, -⟩ := List.append_eq_nil_iff.mp hsplit.symm
      exact ⟨s, hsnoc, hopen⟩
    · rw [if_neg hclosed] at hkept
      obtain ⟨openedAt, hopenedAt, hsince⟩ := ih hr hclosed
      exact ⟨openedAt, hkept.trans hopenedAt, hsince.snoc hsnoc hopen⟩

/-! ## After a failed probe -/

/-- **No probe is let through before the interval has passed since the opening.** -/
theorem due_of_follow {after : List Call} (hopened : s.inner.state = .opened)
    (hopenedAt : s.inner.openedAt = some openedAt) (hpast : OpenedInPast s)
    (hs' : Run.follow cb.step s after = some s') :
    OpenedInPast s' ∧ ((s'.inner.state = .opened ∧ s'.inner.openedAt = some openedAt
        ∧ s'.inner.probeInterval = s.inner.probeInterval)
      ∨ openedAt + s.inner.probeInterval ≤ s'.clock) := by
  refine Run.invariant_of_follow (I := fun r => OpenedInPast r ∧ ((r.inner.state = .opened
      ∧ r.inner.openedAt = some openedAt ∧ r.inner.probeInterval = s.inner.probeInterval)
    ∨ openedAt + s.inner.probeInterval ≤ r.clock)) ?_ hs'
    ⟨hpast, .inl ⟨hopened, hopenedAt, rfl⟩⟩
  intro r call r' ⟨hpast, hr⟩ hstep
  refine ⟨hpast.step hstep, ?_⟩
  obtain ⟨hstate, hat, hinterval⟩ | hdue := hr
  · obtain ⟨hstate', hat', hinterval'⟩ | ⟨t, ht, hdue⟩ := step_of_opened hstate hpast hstep
    · exact .inl ⟨hstate', hat'.trans hat, hinterval'.trans hinterval⟩
    · obtain rfl := Option.some.inj (ht.symm.trans hat)
      exact .inr (hinterval ▸ hdue)
  · refine .inr (hdue.trans ?_)
    rw [clock_of_step hstep]
    exact Nat.le_add_right _ _

/-- A probe that fails opens the circuit, and keeps the time. -/
theorem step_recordFailure_of_halfOpen (hhalf : s.inner.state = .halfOpen)
    (hstep : cb.step s ⟨wait, .recordFailure rand⟩ = some s') :
    s'.inner.state = .opened ∧ s'.inner.openedAt = s.inner.openedAt := by
  cases hstep
  simp [recordFailure, hhalf]

end CircuitBreaker

open CircuitBreaker

/-- **A failed probe backs off from the opening.** If a probe fails and sets the interval,
then, whatever calls come after it, no check lets an operation through before that interval
has passed since the circuit opened; a failed probe does not move that time. -/
theorem failed_probe_backs_off (cb : CircuitBreaker) (before after : List Call) (wait rand : ℕ)
    (s s₁ s₂ : InUse) (hs : Run.follow cb.step cb.start before = some s)
    (hhalf : s.inner.state = .halfOpen)
    (hs₁ : cb.step s ⟨wait, .recordFailure rand⟩ = some s₁)
    (hs₂ : Run.follow cb.step s₁ after = some s₂) (wait' : ℕ) (inner' : Inner)
    (hcheck : cb.check s₂.inner (s₂.clock + wait') = some (.ok (), inner')) :
    ∃ openedAt, OpenSince cb before openedAt ∧ s₁.inner.openedAt = some openedAt
      ∧ openedAt + s₁.inner.probeInterval ≤ s₂.clock + wait' := by
  obtain ⟨openedAt, hopenedAt, hsince⟩ := openSince_of_follow hs (by simp [hhalf])
  obtain ⟨hopened, hkept⟩ := step_recordFailure_of_halfOpen hhalf hs₁
  have hpast : OpenedInPast s₁ := (openedInPast_of_follow hs).step hs₁
  refine ⟨openedAt, hsince, hkept.trans hopenedAt, ?_⟩
  obtain ⟨hpast', ⟨hstate, hat, hinterval⟩ | hdue⟩ :=
    due_of_follow hopened (hkept.trans hopenedAt) hpast hs₂
  · obtain ⟨t, ht, ⟨-, -, hdue⟩ | ⟨⟨e, he⟩, -⟩⟩ :=
      check_of_opened hstate (fun t ht => (hpast' t ht).trans (Nat.le_add_right _ _)) hcheck
    · obtain rfl := Option.some.inj (ht.symm.trans hat)
      exact hinterval ▸ hdue
    · cases he
  · exact hdue.trans (Nat.le_add_right _ _)

/-! ## A database that stays down -/

/-- Five operations fail and open the circuit, and a probe starts as soon as it is due. -/
def firstProbe : List Call :=
  List.replicate 5 ⟨1, .recordFailure 0⟩ ++ [⟨5_000_000_000, .check⟩]

/-- What the run of the first probe leads to. -/
def probing : InUse :=
  { inner :=
      { state := .halfOpen
        consecutiveFailures := 5
        probeInterval := 5_000_000_000
        openedAt := some 5
        openCount := 1 }
    clock := 5_000_000_005
    admitted := some 1 }

/-- The probe fails after four seconds. -/
def probeFailed : InUse :=
  { inner :=
      { state := .opened
        consecutiveFailures := 6
        probeInterval := 10_000_000_000
        openedAt := some 5
        openCount := 2 }
    clock := 9_000_000_005 }

theorem failed_probe_backs_off_firstProbe :
    ∃ openedAt, OpenSince (withDefaults "postgres") firstProbe openedAt
      ∧ probeFailed.inner.openedAt = some openedAt
      ∧ openedAt + probeFailed.inner.probeInterval ≤ 9_000_000_005 + 1_000_000_000 :=
  failed_probe_backs_off (withDefaults "postgres") firstProbe [] 4_000_000_000 0 probing
    probeFailed probeFailed (by decide +kernel) rfl (by decide +kernel) rfl 1_000_000_000
    { probeFailed.inner with state := .halfOpen } (by decide +kernel)

/-- **A probe can be let through before the interval has passed since the failed one**: the
interval is ten seconds, and the next probe starts after one. -/
theorem probeFailed_probed_early :
    ¬ ∀ (cb : CircuitBreaker) (before after : List Call) (wait rand : ℕ) (s s₁ s₂ : InUse),
      Run.follow cb.step cb.start before = some s → s.inner.state = .halfOpen →
        cb.step s ⟨wait, .recordFailure rand⟩ = some s₁ →
          Run.follow cb.step s₁ after = some s₂ → (∀ call ∈ after, call.op ≠ .recordSuccess) →
            ∀ (wait' : ℕ) (inner' : Inner),
              cb.check s₂.inner (s₂.clock + wait') = some (.ok (), inner') →
                s₁.clock + s₁.inner.probeInterval ≤ s₂.clock + wait' := by
  intro h
  have hlater := h (withDefaults "postgres") firstProbe [] 4_000_000_000 0 probing probeFailed
    probeFailed (by decide +kernel) rfl (by decide +kernel) rfl nofun 1_000_000_000
    { probeFailed.inner with state := .halfOpen } (by decide +kernel)
  exact absurd hlater (by decide)
