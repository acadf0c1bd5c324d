import Mathlib.Algebra.Group.Nat.Defs
import Mathlib.Data.List.Basic

/-!
# A loop that gives up, and a supervisor that starts it again

A worker repeats one iteration for as long as its service runs. After a failure it waits,
twice as long after each failure in a row, and after some of them, or after one that is
escalated, it throws. A supervisor starts what threw again, after a wait that follows the
failures since the last run that lasted.

Both loops look at the signal of the service before an iteration and after it: it can only
change while they wait for something. So a moment at which the signal is aborted is the number
of the first look that sees it: look `2 * i` comes before iteration `i`, and look `2 * i + 1`
after it.
-/

/-- Where a loop is. -/
inductive LoopState (ε : Type) where
  | running (consecutiveFailures : ℕ)
  | returned
  | threw (error : ε)

/-- A look at a signal sees that it was aborted, at some time or never. -/
def Aborted (abortAt : Option ℕ) (look : ℕ) : Prop := ∃ t ∈ abortAt, t ≤ look

instance (abortAt : Option ℕ) (look : ℕ) : Decidable (Aborted abortAt look) :=
  inferInstanceAs (Decidable (∃ t ∈ abortAt, _))

theorem Aborted.mono {abortAt : Option ℕ} {look look' : ℕ} (h : Aborted abortAt look)
    (hle : look ≤ look') : Aborted abortAt look' := by
  obtain ⟨t, ht, hlook⟩ := h
  exact ⟨t, ht, Nat.le_trans hlook hle⟩

/-! ## The reconciliation loop -/

/-- The arguments of a reconciliation loop. -/
structure ReconciliationInput (ε : Type) where
  intervalMs : ℕ
  failureBackoffBaseMs : Option ℕ := none
  failureBackoffMaxMs : Option ℕ := none
  maxConsecutiveFailures : Option ℕ := none
  /-- The last failure that is too many is one of them. -/
  maxConsecutiveFailures_pos : ∀ m ∈ maxConsecutiveFailures, 0 < m := by simp
  shouldEscalateFailure : ε → ℕ → Bool := fun _ _ => false

/-- What happens while a loop runs. -/
structure ReconciliationRuns (ε : Type) where
  /-- What an iteration comes to: it says whether to skip the sleep, or fails. -/
  run : ℕ → Except ε Bool
  /-- The heartbeat after it. -/
  beat : ℕ → Except ε Unit := fun _ => .ok ()
  abortAt : Option ℕ := none

/-- What a turn of a loop does. -/
structure ReconciliationTurn (ε : Type) where
  /-- Whether there is an iteration. -/
  ran : Bool := false
  sleep : Option ℕ := none
  next : LoopState ε

section Loop

variable {ε : Type} (input : ReconciliationInput ε) (runs : ReconciliationRuns ε)

namespace ReconciliationInput

/-- The wait after the last of some failures in a row. -/
def delayMs (consecutiveFailures : ℕ) : ℕ :=
  min (input.failureBackoffMaxMs.getD (input.intervalMs * 8))
    (input.failureBackoffBaseMs.getD input.intervalMs * 2 ^ (consecutiveFailures - 1))

end ReconciliationInput

namespace ReconciliationRuns

/-- An iteration fails if its heartbeat does. -/
def outcome (i : ℕ) : Except ε Bool := do
  let skipSleep ← runs.run i
  runs.beat i
  return skipSleep

def failed (i : ℕ) : Bool := !(runs.outcome i).toBool

/-- A turn of the loop. -/
def turn (i : ℕ) : LoopState ε → ReconciliationTurn ε
  | .running consecutiveFailures =>
    if Aborted runs.abortAt (2 * i) then { next := .returned } else
    match runs.outcome i with
    | .error error =>
      let consecutiveFailures := consecutiveFailures + 1
      if Aborted runs.abortAt (2 * i + 1) then { ran := true, next := .returned }
      else if input.shouldEscalateFailure error consecutiveFailures then
        { ran := true, next := .threw error }
      else if ∃ m ∈ input.maxConsecutiveFailures, m ≤ consecutiveFailures then
        { ran := true, next := .threw error }
      else
        { ran := true
          sleep := some (input.delayMs consecutiveFailures)
          next := .running consecutiveFailures }
    | .ok skipSleep =>
      if Aborted runs.abortAt (2 * i + 1) then { ran := true, next := .returned }
      else if skipSleep then { ran := true, next := .running 0 }
      else { ran := true, sleep := some input.intervalMs, next := .running 0 }
  | .returned => { next := .returned }
  | .threw error => { next := .threw error }

/-- Where the loop is before a turn. -/
def runReconciliationLoop : ℕ → LoopState ε
  | 0 => .running 0
  | i + 1 => (runs.turn input i (runReconciliationLoop i)).next

/-- What the loop does in a turn. -/
def turnAt (i : ℕ) : ReconciliationTurn ε := runs.turn input i (runs.runReconciliationLoop input i)

/-! ### What it is to do -/

/-- The failures in a row that the first iterations end with. -/
def failuresInARow (n : ℕ) : ℕ := ((List.range n).reverse.takeWhile runs.failed).length

/-- A failure is one that the loop is not to survive: it is escalated, or it is one too many in
a row. -/
def TooMuch (i : ℕ) (error : ε) : Prop :=
  input.shouldEscalateFailure error (runs.failuresInARow (i + 1)) = true
    ∨ ∃ m ∈ input.maxConsecutiveFailures, runs.failuresInARow (i + 1) = m

instance (i : ℕ) (error : ε) : Decidable (runs.TooMuch input i error) :=
  inferInstanceAs (Decidable (_ ∨ _))

/-- An iteration fails, and that is too much. -/
def GivesUp (i : ℕ) (error : ε) : Prop :=
  runs.outcome i = .error error ∧ runs.TooMuch input i error

/-- **The law of the loop.** -/
structure LoopLaw : Prop where
  /-- There is an iteration as long as the signal is not aborted and no failure was too much. -/
  iterates : ∀ i, (runs.turnAt input i).ran = true
    ↔ ¬ Aborted runs.abortAt (2 * i) ∧ ∀ j < i, ∀ error, ¬ runs.GivesUp input j error
  /-- It throws the error of the first failure that is too much, unless the signal is aborted by
  then. -/
  throws : ∀ n error, runs.runReconciliationLoop input n = .threw error
    ↔ ∃ i < n, (runs.turnAt input i).ran = true ∧ ¬ Aborted runs.abortAt (2 * i + 1)
      ∧ runs.GivesUp input i error
  /-- It returns where the signal is aborted, unless it threw before. -/
  returns : ∀ n, runs.runReconciliationLoop input n = .returned
    ↔ ∃ t ∈ runs.abortAt, t < 2 * n
      ∧ ∀ j error, 2 * j + 1 < t → ¬ runs.GivesUp input j error
  sleepsAfterFailure : ∀ i error, (runs.turnAt input i).ran = true →
    ¬ Aborted runs.abortAt (2 * i + 1) → runs.outcome i = .error error →
    ¬ runs.GivesUp input i error →
    (runs.turnAt input i).sleep = some (input.delayMs (runs.failuresInARow (i + 1)))
  sleepsAfterSuccess : ∀ i skipSleep, (runs.turnAt input i).ran = true →
    ¬ Aborted runs.abortAt (2 * i + 1) → runs.outcome i = .ok skipSleep →
    (runs.turnAt input i).sleep = if skipSleep then none else some input.intervalMs

variable {input runs} {i n : ℕ} {error : ε}

/-! ### A turn -/

theorem failed_of_error (h : runs.outcome i = .error error) : runs.failed i = true := by
  unfold failed
  rw [h]
  rfl

theorem failuresInARow_succ (n : ℕ) : runs.failuresInARow (n + 1)
    = if runs.failed n then runs.failuresInARow n + 1 else 0 := by
  unfold failuresInARow
  rw [List.range_succ, List.reverse_append, List.reverse_singleton, List.singleton_append,
    List.takeWhile_cons]
  split <;> rfl

theorem failuresInARow_error (h : runs.outcome i = .error error) :
    runs.failuresInARow (i + 1) = runs.failuresInARow i + 1 := by
  rw [failuresInARow_succ, if_pos (failed_of_error h)]

theorem failuresInARow_ok {skipSleep : Bool} (h : runs.outcome i = .ok skipSleep) :
    runs.failuresInARow (i + 1) = 0 := by
  rw [failuresInARow_succ, if_neg]
  unfold failed
  rw [h]
  exact Bool.false_ne_true

/-- One failure is too much for one reason. -/
theorem GivesUp.error_eq {error' : ε} (h : runs.GivesUp input i error)
    (h' : runs.GivesUp input i error') : error = error' := by
  have heq := h.1.symm.trans h'.1
  exact Except.error.inj heq

/-- A loop that has counted the failures in a row, and has not given up yet. -/
structure Counted (runs : ReconciliationRuns ε) (input : ReconciliationInput ε) (i : ℕ) : Prop where
  state : runs.runReconciliationLoop input i = .running (runs.failuresInARow i)
  few : ∀ m ∈ input.maxConsecutiveFailures, runs.failuresInARow i < m

/-- **What a turn does** of a loop that has counted the failures in a row. -/
theorem turnAt_of_counted (h : Counted runs input i) : runs.turnAt input i
    = if Aborted runs.abortAt (2 * i) then { next := .returned }
      else if Aborted runs.abortAt (2 * i + 1) then { ran := true, next := .returned }
      else match runs.outcome i with
        | .error error =>
          if runs.TooMuch input i error then { ran := true, next := .threw error }
          else
            { ran := true
              sleep := some (input.delayMs (runs.failuresInARow (i + 1)))
              next := .running (runs.failuresInARow (i + 1)) }
        | .ok skipSleep =>
          { ran := true
            sleep := if skipSleep then none else some input.intervalMs
            next := .running 0 } := by
  unfold turnAt
  rw [h.state]
  unfold turn
  dsimp only
  by_cases htop : Aborted runs.abortAt (2 * i)
  · rw [if_pos htop, if_pos htop]
  · rw [if_neg htop, if_neg htop]
    by_cases hafter : Aborted runs.abortAt (2 * i + 1)
    · rw [if_pos hafter]
      cases runs.outcome i with
      | error error => exact if_pos hafter
      | ok skipSleep => exact if_pos hafter
    · rw [if_neg hafter]
      cases houtcome : runs.outcome i with
      | error error =>
        have htoo : runs.TooMuch input i error
            ↔ input.shouldEscalateFailure error (runs.failuresInARow i + 1) = true
              ∨ ∃ m ∈ input.maxConsecutiveFailures, m ≤ runs.failuresInARow i + 1 := by
          unfold TooMuch
          rw [failuresInARow_error houtcome]
          -- the count is below the bound before this failure, so it is at most the bound now
          refine or_congr_right (exists_congr fun m => and_congr_right fun hm => ?_)
          have := h.few m hm
          omega
        dsimp only
        rw [if_neg hafter]
        by_cases hescalate : input.shouldEscalateFailure error (runs.failuresInARow i + 1) = true
        · rw [if_pos hescalate, if_pos (htoo.mpr (.inl hescalate))]
        · rw [if_neg hescalate]
          by_cases hmany : ∃ m ∈ input.maxConsecutiveFailures, m ≤ runs.failuresInARow i + 1
          · rw [if_pos hmany, if_pos (htoo.mpr (.inr hmany))]
          · rw [if_neg hmany, if_neg fun h => (htoo.mp h).elim hescalate hmany,
              failuresInARow_error houtcome]
      | ok skipSleep =>
        dsimp only
        rw [if_neg hafter]
        cases skipSleep <;> rfl

/-! ### A run -/

theorem not_aborted_iff {look : ℕ} :
    ¬ Aborted runs.abortAt look ↔ ∀ t ∈ runs.abortAt, look < t := by
  simp [Aborted]

/-- **Where the loop is**: it counts the failures in a row, or it returned because the signal
was aborted, or it threw the first error that was too much. -/
theorem runReconciliationLoop_cases (runs : ReconciliationRuns ε) (input : ReconciliationInput ε)
    (n : ℕ) :
    (Counted runs input n ∧ (∀ j < n, ∀ error, ¬ runs.GivesUp input j error)
      ∧ ∀ t ∈ runs.abortAt, 2 * n ≤ t)
    ∨ (runs.runReconciliationLoop input n = .returned ∧ ∃ t ∈ runs.abortAt, t < 2 * n
      ∧ ∀ j error, 2 * j + 1 < t → ¬ runs.GivesUp input j error)
    ∨ ∃ i < n, ∃ error, runs.runReconciliationLoop input n = .threw error
      ∧ runs.GivesUp input i error ∧ ¬ Aborted runs.abortAt (2 * i + 1)
      ∧ ∀ j < i, ∀ error', ¬ runs.GivesUp input j error' := by
  induction n with
  | zero =>
    refine .inl ⟨⟨rfl, input.maxConsecutiveFailures_pos⟩, fun j hj => ?_, fun t _ => Nat.zero_le t⟩
    exact absurd hj (Nat.not_lt_zero j)
  | succ n ih =>
    obtain ⟨hcounted, hnone, habort⟩ | ⟨hstate, t, ht, hlt, hnone⟩
      | ⟨i, hi, error, hstate, hrest⟩ := ih
    · have hnext : runs.runReconciliationLoop input (n + 1) = (runs.turnAt input n).next := rfl
      rw [turnAt_of_counted hcounted] at hnext
      by_cases hafter : Aborted runs.abortAt (2 * n + 1)
      · -- the signal is aborted before the iteration or in it
        obtain ⟨t, ht, hle⟩ := hafter
        refine .inr (.inl ⟨?_, t, ht, by omega, fun j error hj => hnone j (by omega) error⟩)
        rw [hnext]
        split
        · rfl
        · rw [if_pos ⟨t, ht, hle⟩]
      · have htop : ¬ Aborted runs.abortAt (2 * n) := fun h => hafter (h.mono (Nat.le_succ _))
        have hlate : ∀ t ∈ runs.abortAt, 2 * (n + 1) ≤ t := by
          intro t ht
          have := not_aborted_iff.mp hafter t ht
          omega
        have hnone' : (∀ error, ¬ runs.GivesUp input n error) →
            ∀ j < n + 1, ∀ error, ¬ runs.GivesUp input j error := by
          intro hn j hj
          obtain hj | rfl := Nat.lt_succ_iff_lt_or_eq.mp hj
          · exact hnone j hj
          · exact hn
        rw [if_neg htop, if_neg hafter] at hnext
        cases houtcome : runs.outcome n with
        | error error =>
          rw [houtcome] at hnext
          dsimp only at hnext
          by_cases htoo : runs.TooMuch input n error
          · rw [if_pos htoo] at hnext
            exact .inr (.inr ⟨n, Nat.lt_succ_self n, error, hnext, ⟨houtcome, htoo⟩, hafter, hnone⟩)
          · rw [if_neg htoo] at hnext
            refine .inl ⟨⟨hnext, fun m hm => ?_⟩, hnone' fun error' hgives => ?_, hlate⟩
            · have hne : runs.failuresInARow (n + 1) ≠ m := fun heq => htoo (.inr ⟨m, hm, heq⟩)
              have := hcounted.few m hm
              rw [failuresInARow_error houtcome] at hne ⊢
              omega
            · obtain rfl := Except.error.inj (hgives.1.symm.trans houtcome)
              exact htoo hgives.2
        | ok skipSleep =>
          rw [houtcome] at hnext
          refine .inl ⟨⟨?_, fun m hm => ?_⟩, hnone' fun error hgives => ?_, hlate⟩
          · rw [hnext, failuresInARow_ok houtcome]
          · rw [failuresInARow_ok houtcome]
            exact input.maxConsecutiveFailures_pos m hm
          · have := hgives.1.symm.trans houtcome
            cases this
    · refine .inr (.inl ⟨?_, t, ht, by omega, hnone⟩)
      show (runs.turn input n (runs.runReconciliationLoop input n)).next = _
      rw [hstate]
      rfl
    · refine .inr (.inr ⟨i, by omega, error, ?_, hrest⟩)
      show (runs.turn input n (runs.runReconciliationLoop input n)).next = _
      rw [hstate]
      rfl

/-- A loop that is not counting does nothing more. -/
theorem turnAt_eq (h : ∀ k, runs.runReconciliationLoop input i ≠ .running k) :
    runs.turnAt input i = { next := runs.runReconciliationLoop input i } := by
  unfold turnAt
  cases hstate : runs.runReconciliationLoop input i with
  | running k => exact absurd hstate (h k)
  | returned => rfl
  | threw error => rfl

/-- **When there is an iteration.** -/
theorem ran_iff : (runs.turnAt input i).ran = true
    ↔ ¬ Aborted runs.abortAt (2 * i) ∧ ∀ j < i, ∀ error, ¬ runs.GivesUp input j error := by
  obtain ⟨hcounted, hnone, -⟩ | ⟨hstate, t, ht, hlt, -⟩ | ⟨j, hj, error, hstate, hgives, -⟩ :=
    runReconciliationLoop_cases runs input i
  · rw [turnAt_of_counted hcounted]
    split
    · next htop => simp [htop]
    · next htop =>
      refine iff_of_true ?_ ⟨htop, hnone⟩
      split
      · rfl
      · cases runs.outcome i with
        | error error => dsimp only; split <;> rfl
        | ok skipSleep => rfl
  · rw [turnAt_eq (by simp [hstate])]
    exact iff_of_false Bool.false_ne_true fun h => h.1 ⟨t, ht, Nat.le_of_lt hlt⟩
  · rw [turnAt_eq (by simp [hstate])]
    exact iff_of_false Bool.false_ne_true fun h => h.2 j hj error hgives

/-- An iteration is one of a loop that counts. -/
theorem counted_of_ran (h : (runs.turnAt input i).ran = true) : Counted runs input i := by
  obtain ⟨hcounted, -⟩ | ⟨hstate, -⟩ | ⟨-, -, error, hstate, -⟩ :=
    runReconciliationLoop_cases runs input i
  · exact hcounted
  · rw [turnAt_eq (by simp [hstate])] at h
    exact absurd h Bool.false_ne_true
  · rw [turnAt_eq (by simp [hstate])] at h
    exact absurd h Bool.false_ne_true

/-- **The loop keeps its law.** -/
theorem loopLaw (runs : ReconciliationRuns ε) (input : ReconciliationInput ε) :
    runs.LoopLaw input where
  iterates _ := ran_iff
  throws n error := by
    constructor
    · intro hthrew
      obtain ⟨hcounted, -⟩ | ⟨hstate, -⟩ | ⟨i, hi, error', hstate, hgives, hafter, hnone⟩ :=
        runReconciliationLoop_cases runs input n
      · exact absurd (hcounted.state.symm.trans hthrew) (by simp)
      · exact absurd (hstate.symm.trans hthrew) (by simp)
      · obtain rfl : error' = error := by simpa using hstate.symm.trans hthrew
        exact ⟨i, hi, ran_iff.mpr ⟨fun h => hafter (h.mono (Nat.le_succ _)), hnone⟩, hafter, hgives⟩
    · rintro ⟨i, hi, hran, hafter, hgives⟩
      obtain ⟨-, hnone, -⟩ | ⟨-, t, ht, -, hnone⟩ | ⟨i', -, error', hstate, hgives', -, hnone⟩ :=
        runReconciliationLoop_cases runs input n
      · exact absurd hgives (hnone i hi error)
      · exact absurd hgives (hnone i error (not_aborted_iff.mp hafter t ht))
      · -- both are the first iteration that is too much
        have hle : ¬ i < i' := fun hlt => hnone i hlt error hgives
        have hge : ¬ i' < i := fun hlt => (ran_iff.mp hran).2 i' hlt error' hgives'
        obtain rfl : i = i' := by omega
        rw [hstate, hgives.error_eq hgives']
  returns n := by
    constructor
    · intro hreturned
      obtain ⟨hcounted, -⟩ | ⟨-, habort⟩ | ⟨-, -, error, hstate, -⟩ :=
        runReconciliationLoop_cases runs input n
      · exact absurd (hcounted.state.symm.trans hreturned) (by simp)
      · exact habort
      · exact absurd (hstate.symm.trans hreturned) (by simp)
    · rintro ⟨t, ht, hlt, hnone⟩
      obtain ⟨-, -, hlate⟩ | ⟨hstate, -⟩ | ⟨i, -, error, -, hgives, hafter, -⟩ :=
        runReconciliationLoop_cases runs input n
      · exact absurd (hlate t ht) (Nat.not_le.mpr hlt)
      · exact hstate
      · exact absurd hgives (hnone i error (not_aborted_iff.mp hafter t ht))
  sleepsAfterFailure i error hran hafter houtcome hgives := by
    rw [turnAt_of_counted (counted_of_ran hran), if_neg (ran_iff.mp hran).1, if_neg hafter,
      houtcome]
    dsimp only
    rw [if_neg fun htoo => hgives ⟨houtcome, htoo⟩]
  sleepsAfterSuccess i skipSleep hran hafter houtcome := by
    rw [turnAt_of_counted (counted_of_ran hran), if_neg (ran_iff.mp hran).1, if_neg hafter,
      houtcome]

end ReconciliationRuns

end Loop

/-! ## The supervisor -/

namespace Supervised

/-- What kind of error a worker ended with. -/
inductive ErrorClass where
  | fatal
  | transient
  | circuitProtected
  deriving DecidableEq, Repr

/-- The arguments of a supervisor. -/
structure Input where
  baseDelayMs : ℕ
  maxDelayMs : ℕ
  healthyAfterMs : Option ℕ := none
  deriving DecidableEq, Repr

/-- What happens to a supervisor. -/
structure Runs (ε : Type) where
  run : ℕ → Except ε Unit
  classifyWorkerError : ε → ErrorClass
  startedAt : ℕ → ℤ
  failedAt : ℕ → ℤ
  /-- The wait for a number of failures, in a turn: the default draws it at random. -/
  computeDelayMs : ℕ → ℕ → ℕ → ℕ → ℕ
  abortAt : Option ℕ := none

/-- What is reported of a restart, after which the supervisor sleeps. -/
structure Restart where
  attempt : ℕ
  consecutiveFailures : ℕ
  delayMs : ℕ
  errorClass : ErrorClass
  deriving DecidableEq, Repr

/-- What a turn of a supervisor does. -/
structure Turn (ε : Type) where
  /-- Whether the worker is run. -/
  ran : Bool := false
  restart : Option Restart := none
  next : LoopState ε

namespace Runs

variable {ε : Type} (input : Input) (runs : Runs ε)

/-- How long a run lasted. -/
def runtimeMs (i : ℕ) : ℕ := (runs.failedAt i - runs.startedAt i).toNat

/-- A run lasted long enough to count as recovered. -/
def healthy (i : ℕ) : Bool := input.healthyAfterMs.getD 60_000 ≤ runs.runtimeMs i

/-- A turn of the supervisor. -/
def turn (i : ℕ) : LoopState ε → Turn ε
  | .running consecutiveFailures =>
    if Aborted runs.abortAt (2 * i) then { next := .returned } else
    match runs.run i with
    | .ok () => { ran := true, next := .returned }
    | .error error =>
      if Aborted runs.abortAt (2 * i + 1) then { ran := true, next := .returned }
      else if runs.classifyWorkerError error = .fatal then { ran := true, next := .threw error }
      else
        let consecutiveFailures := if runs.healthy input i then 0 else consecutiveFailures
        let consecutiveFailures := consecutiveFailures + 1
        { ran := true
          restart := some
            { attempt := i + 1
              consecutiveFailures
              delayMs := runs.computeDelayMs i consecutiveFailures input.baseDelayMs input.maxDelayMs
              errorClass := runs.classifyWorkerError error }
          next := .running consecutiveFailures }
  | .returned => { next := .returned }
  | .threw error => { next := .threw error }

/-- Where the supervisor is before a turn. -/
def runSupervised : ℕ → LoopState ε
  | 0 => .running 0
  | i + 1 => (runs.turn input i (runSupervised i)).next

/-- What the supervisor does in a turn. -/
def turnAt (i : ℕ) : Turn ε := runs.turn input i (runs.runSupervised input i)

/-! ### What it is to do -/

/-- A run ends with an error that is not fatal. -/
def restarts (i : ℕ) : Bool :=
  match runs.run i with
  | .ok () => false
  | .error error => runs.classifyWorkerError error ≠ .fatal

/-- The failures that are not fatal among the first runs, that of the last healthy one and
those after it. -/
def failuresSinceHealthy (n : ℕ) : ℕ :=
  (List.range n).countP fun j =>
    runs.restarts j && (List.range n).all fun h => h ≤ j || !runs.healthy input h

/-- **The law of the supervisor.** -/
structure RestartLaw : Prop where
  /-- The worker is run as long as the signal is not aborted and it ends with errors that are
  not fatal. -/
  attempts : ∀ i, (runs.turnAt input i).ran = true
    ↔ ¬ Aborted runs.abortAt (2 * i) ∧ ∀ j < i, runs.restarts j = true
  waits : ∀ i error, (runs.turnAt input i).ran = true → ¬ Aborted runs.abortAt (2 * i + 1) →
    runs.run i = .error error → runs.classifyWorkerError error ≠ .fatal →
    (runs.turnAt input i).restart = some
      { attempt := i + 1
        consecutiveFailures := runs.failuresSinceHealthy input (i + 1)
        delayMs := runs.computeDelayMs i (runs.failuresSinceHealthy input (i + 1))
          input.baseDelayMs input.maxDelayMs
        errorClass := runs.classifyWorkerError error }
  throws : ∀ n error, runs.runSupervised input n = .threw error
    ↔ ∃ i < n, (runs.turnAt input i).ran = true ∧ ¬ Aborted runs.abortAt (2 * i + 1)
      ∧ runs.run i = .error error ∧ runs.classifyWorkerError error = .fatal
  returns : ∀ n, runs.runSupervised input n = .returned
    ↔ (∃ i < n, (runs.turnAt input i).ran = true ∧ runs.run i = .ok ())
      ∨ ∃ t ∈ runs.abortAt, t < 2 * n ∧ ∀ j, 2 * j + 1 < t → runs.restarts j = true

variable {input runs} {i n : ℕ} {error : ε}

/-! ### A turn -/

theorem restarts_of_error (h : runs.run i = .error error) :
    runs.restarts i = true ↔ runs.classifyWorkerError error ≠ .fatal := by
  unfold restarts
  rw [h]
  exact decide_eq_true_iff

theorem not_restarts_of_ok (h : runs.run i = .ok ()) : runs.restarts i ≠ true := by
  unfold restarts
  rw [h]
  exact Bool.false_ne_true

/-- **A healthy run starts the count over**, and counts itself. -/
theorem failuresSinceHealthy_succ (h : runs.restarts n = true) :
    runs.failuresSinceHealthy input (n + 1)
      = (if runs.healthy input n then 0 else runs.failuresSinceHealthy input n) + 1 := by
  have hbefore : ∀ j ∈ List.range n,
      ((runs.restarts j && (List.range (n + 1)).all fun h => h ≤ j || !runs.healthy input h) = true
        ↔ (runs.restarts j && ((List.range n).all fun h => h ≤ j || !runs.healthy input h)
          && !runs.healthy input n) = true) := by
    intro j hj
    have hlt : ¬ n ≤ j := Nat.not_le.mpr (List.mem_range.mp hj)
    rw [List.range_succ, List.all_append]
    simp [hlt, and_assoc]
  have hlast : (runs.restarts n
      && (List.range (n + 1)).all fun h => h ≤ n || !runs.healthy input h) = true := by
    rw [h, Bool.true_and, List.all_eq_true]
    intro k hk
    have : k ≤ n := Nat.lt_succ_iff.mp (List.mem_range.mp hk)
    simp [this]
  unfold failuresSinceHealthy
  rw [List.range_succ, List.countP_append, ← List.range_succ, List.countP_congr hbefore,
    List.countP_singleton, if_pos hlast]
  split
  · next hhealthy => simp [hhealthy]
  · next hill => simp [hill]

/-- **What a turn does** of a supervisor that has counted the failures. -/
theorem turnAt_of_running
    (h : runs.runSupervised input i = .running (runs.failuresSinceHealthy input i)) :
    runs.turnAt input i
      = if Aborted runs.abortAt (2 * i) then { next := .returned }
        else match runs.run i with
          | .ok () => { ran := true, next := .returned }
          | .error error =>
            if Aborted runs.abortAt (2 * i + 1) then { ran := true, next := .returned }
            else if runs.classifyWorkerError error = .fatal then
              { ran := true, next := .threw error }
            else
              { ran := true
                restart := some
                  { attempt := i + 1
                    consecutiveFailures := runs.failuresSinceHealthy input (i + 1)
                    delayMs := runs.computeDelayMs i (runs.failuresSinceHealthy input (i + 1))
                      input.baseDelayMs input.maxDelayMs
                    errorClass := runs.classifyWorkerError error }
                next := .running (runs.failuresSinceHealthy input (i + 1)) } := by
  unfold turnAt
  rw [h]
  unfold turn
  dsimp only
  refine if_congr Iff.rfl rfl ?_
  cases hrun : runs.run i with
  | ok _ => rfl
  | error error =>
    refine if_congr Iff.rfl rfl ?_
    by_cases hfatal : runs.classifyWorkerError error = .fatal
    · rw [if_pos hfatal, if_pos hfatal]
    · rw [if_neg hfatal, if_neg hfatal,
        failuresSinceHealthy_succ ((restarts_of_error hrun).mpr hfatal)]

/-! ### A run -/

/-- **Where the supervisor is**: it counts the failures, or it returned after a run that did or
because the signal was aborted, or it threw the first error that was fatal. -/
theorem runSupervised_cases (runs : Runs ε) (input : Input) (n : ℕ) :
    (runs.runSupervised input n = .running (runs.failuresSinceHealthy input n)
      ∧ (∀ j < n, runs.restarts j = true) ∧ ∀ t ∈ runs.abortAt, 2 * n ≤ t)
    ∨ (runs.runSupervised input n = .returned
      ∧ ((∃ i < n, runs.run i = .ok () ∧ ¬ Aborted runs.abortAt (2 * i)
          ∧ ∀ j < i, runs.restarts j = true)
        ∨ ∃ t ∈ runs.abortAt, t < 2 * n ∧ ∀ j, 2 * j + 1 < t → runs.restarts j = true))
    ∨ ∃ i < n, ∃ error, runs.runSupervised input n = .threw error ∧ runs.run i = .error error
      ∧ runs.classifyWorkerError error = .fatal ∧ ¬ Aborted runs.abortAt (2 * i + 1)
      ∧ ∀ j < i, runs.restarts j = true := by
  induction n with
  | zero => exact .inl ⟨rfl, fun j hj => absurd hj (Nat.not_lt_zero j), fun t _ => Nat.zero_le t⟩
  | succ n ih =>
    obtain ⟨hstate, hall, habort⟩ | ⟨hstate, hwhy⟩ | ⟨i, hi, error, hstate, hrest⟩ := ih
    · have hnext : runs.runSupervised input (n + 1) = (runs.turnAt input n).next := rfl
      rw [turnAt_of_running hstate] at hnext
      by_cases htop : Aborted runs.abortAt (2 * n)
      · obtain ⟨t, ht, hle⟩ := htop
        rw [if_pos ⟨t, ht, hle⟩] at hnext
        exact .inr (.inl ⟨hnext, .inr ⟨t, ht, by omega, fun j hj => hall j (by omega)⟩⟩)
      · rw [if_neg htop] at hnext
        cases hrun : runs.run n with
        | ok _ =>
          rw [hrun] at hnext
          exact .inr (.inl ⟨hnext, .inl ⟨n, Nat.lt_succ_self n, hrun, htop, hall⟩⟩)
        | error error =>
          rw [hrun] at hnext
          dsimp only at hnext
          by_cases hafter : Aborted runs.abortAt (2 * n + 1)
          · obtain ⟨t, ht, hle⟩ := hafter
            rw [if_pos ⟨t, ht, hle⟩] at hnext
            exact .inr (.inl ⟨hnext, .inr ⟨t, ht, by omega, fun j hj => hall j (by omega)⟩⟩)
          · rw [if_neg hafter] at hnext
            by_cases hfatal : runs.classifyWorkerError error = .fatal
            · rw [if_pos hfatal] at hnext
              exact .inr (.inr ⟨n, Nat.lt_succ_self n, error, hnext, hrun, hfatal, hafter, hall⟩)
            · rw [if_neg hfatal] at hnext
              refine .inl ⟨hnext, fun j hj => ?_, fun t ht => ?_⟩
              · obtain hj | rfl := Nat.lt_succ_iff_lt_or_eq.mp hj
                · exact hall j hj
                · exact (restarts_of_error hrun).mpr hfatal
              · exact Nat.not_lt.mp fun hlt => hafter ⟨t, ht, by omega⟩
    · refine .inr (.inl ⟨?_, hwhy.imp ?_ ?_⟩)
      · show (runs.turn input n (runs.runSupervised input n)).next = _
        rw [hstate]
        rfl
      · rintro ⟨i, hi, hrest⟩
        exact ⟨i, by omega, hrest⟩
      · rintro ⟨t, ht, hlt, hrest⟩
        exact ⟨t, ht, by omega, hrest⟩
    · refine .inr (.inr ⟨i, by omega, error, ?_, hrest⟩)
      show (runs.turn input n (runs.runSupervised input n)).next = _
      rw [hstate]
      rfl

/-- A supervisor that is not counting does nothing more. -/
theorem turnAt_eq (h : ∀ k, runs.runSupervised input i ≠ .running k) :
    runs.turnAt input i = { next := runs.runSupervised input i } := by
  unfold turnAt
  cases hstate : runs.runSupervised input i with
  | running k => exact absurd hstate (h k)
  | returned => rfl
  | threw error => rfl

/-- **When the worker is run.** -/
theorem ran_iff : (runs.turnAt input i).ran = true
    ↔ ¬ Aborted runs.abortAt (2 * i) ∧ ∀ j < i, runs.restarts j = true := by
  obtain ⟨hstate, hall, -⟩ | ⟨hstate, hwhy⟩ | ⟨j, hj, error, hstate, hrun, hfatal, -⟩ :=
    runSupervised_cases runs input i
  · rw [turnAt_of_running hstate]
    split
    · next htop => simp [htop]
    · next htop =>
      refine iff_of_true ?_ ⟨htop, hall⟩
      cases runs.run i with
      | ok _ => rfl
      | error error => dsimp only; split <;> (try split) <;> rfl
  · rw [turnAt_eq (by simp [hstate])]
    refine iff_of_false Bool.false_ne_true fun h => ?_
    obtain ⟨j, hj, hok, -⟩ | ⟨t, ht, hlt, -⟩ := hwhy
    · exact not_restarts_of_ok hok (h.2 j hj)
    · exact h.1 ⟨t, ht, Nat.le_of_lt hlt⟩
  · rw [turnAt_eq (by simp [hstate])]
    exact iff_of_false Bool.false_ne_true fun h => (restarts_of_error hrun).mp (h.2 j hj) hfatal

/-- A run is one of a supervisor that counts. -/
theorem running_of_ran (h : (runs.turnAt input i).ran = true) :
    runs.runSupervised input i = .running (runs.failuresSinceHealthy input i) := by
  obtain ⟨hstate, -⟩ | ⟨hstate, -⟩ | ⟨-, -, error, hstate, -⟩ := runSupervised_cases runs input i
  · exact hstate
  · rw [turnAt_eq (by simp [hstate])] at h
    exact absurd h Bool.false_ne_true
  · rw [turnAt_eq (by simp [hstate])] at h
    exact absurd h Bool.false_ne_true

/-- **The supervisor keeps its law.** -/
theorem restartLaw (runs : Runs ε) (input : Input) : runs.RestartLaw input where
  attempts _ := ran_iff
  waits i error hran hafter hrun hfatal := by
    rw [turnAt_of_running (running_of_ran hran), if_neg (ran_iff.mp hran).1, hrun]
    dsimp only
    rw [if_neg hafter, if_neg hfatal]
  throws n error := by
    constructor
    · intro hthrew
      obtain ⟨hstate, -⟩ | ⟨hstate, -⟩ | ⟨i, hi, error', hstate, hrun, hfatal, hafter, hall⟩ :=
        runSupervised_cases runs input n
      · exact absurd (hstate.symm.trans hthrew) (by simp)
      · exact absurd (hstate.symm.trans hthrew) (by simp)
      · obtain rfl : error' = error := by simpa using hstate.symm.trans hthrew
        exact ⟨i, hi, ran_iff.mpr ⟨fun h => hafter (h.mono (Nat.le_succ _)), hall⟩, hafter, hrun,
          hfatal⟩
    · rintro ⟨i, hi, hran, hafter, hrun, hfatal⟩
      have hstop : runs.restarts i ≠ true := fun h => (restarts_of_error hrun).mp h hfatal
      obtain ⟨-, hall, -⟩ | ⟨-, hwhy⟩ | ⟨i', -, error', hstate, hrun', hfatal', -, hall⟩ :=
        runSupervised_cases runs input n
      · exact absurd (hall i hi) hstop
      · obtain ⟨j, -, hok, -, hall⟩ | ⟨t, ht, -, hall⟩ := hwhy
        · -- the run that returned is neither before this one nor after it
          have hle : ¬ i < j := fun hlt => hstop (hall i hlt)
          have hge : ¬ j < i := fun hlt => not_restarts_of_ok hok ((ran_iff.mp hran).2 j hlt)
          obtain rfl : i = j := by omega
          exact absurd (hrun.symm.trans hok) (by simp)
        · refine absurd (hall i ?_) hstop
          exact Nat.not_le.mp fun hle => hafter ⟨t, ht, hle⟩
      · have hle : ¬ i < i' := fun hlt => hstop (hall i hlt)
        have hge : ¬ i' < i := fun hlt =>
          (restarts_of_error hrun').mp ((ran_iff.mp hran).2 i' hlt) hfatal'
        obtain rfl : i = i' := by omega
        rw [hstate, Except.error.inj (hrun'.symm.trans hrun)]
  returns n := by
    constructor
    · intro hreturned
      obtain ⟨hstate, -⟩ | ⟨-, hwhy⟩ | ⟨-, -, error, hstate, -⟩ := runSupervised_cases runs input n
      · exact absurd (hstate.symm.trans hreturned) (by simp)
      · refine hwhy.imp ?_ id
        rintro ⟨i, hi, hok, htop, hall⟩
        exact ⟨i, hi, ran_iff.mpr ⟨htop, hall⟩, hok⟩
      · exact absurd (hstate.symm.trans hreturned) (by simp)
    · intro hwhy
      obtain ⟨-, hall, hlate⟩ | ⟨hstate, -⟩ | ⟨i, -, error, -, hrun, hfatal, hafter, hall⟩ :=
        runSupervised_cases runs input n
      · obtain ⟨i, hi, -, hok⟩ | ⟨t, ht, hlt, -⟩ := hwhy
        · exact absurd (hall i hi) (not_restarts_of_ok hok)
        · exact absurd (hlate t ht) (Nat.not_le.mpr hlt)
      · exact hstate
      · have hstop : runs.restarts i ≠ true := fun h => (restarts_of_error hrun).mp h hfatal
        obtain ⟨j, -, hran, hok⟩ | ⟨t, ht, -, hbefore⟩ := hwhy
        · have hle : ¬ i < j := fun hlt => hstop ((ran_iff.mp hran).2 i hlt)
          have hge : ¬ j < i := fun hlt => not_restarts_of_ok hok (hall j hlt)
          obtain rfl : i = j := by omega
          exact absurd (hrun.symm.trans hok) (by simp)
        · refine absurd (hbefore i ?_) hstop
          exact Nat.not_le.mp fun hle => hafter ⟨t, ht, hle⟩

end Runs

end Supervised

/-- **The loop and its supervisor keep their laws**, whatever their iterations and runs come to
and whenever the signal is aborted. -/
theorem reconciliation_law {ε : Type} (loop : ReconciliationInput ε) (iterations :
    ReconciliationRuns ε) (supervisor : Supervised.Input) (attempts : Supervised.Runs ε) :
    iterations.LoopLaw loop ∧ attempts.RestartLaw supervisor :=
  ⟨iterations.loopLaw loop, attempts.restartLaw supervisor⟩
