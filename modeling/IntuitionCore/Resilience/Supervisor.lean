import Mathlib.Algebra.Group.Nat.Defs
import Mathlib.Data.Nat.Basic

/-!
# Restarting a worker

A supervisor runs a worker, and starts it again after it failed, each time after a longer
wait. The waits double up to a bound. A run that lasted is healthy, and is meant to bring
the wait back to the shortest one.

What brings it back is a check before a run: the one before was healthy, and began not too
long ago. So the failure that ends a healthy run waits as if the run had not been healthy,
and a run that lasted twice as long as it takes to be healthy brings nothing back at all.

The clock and the runs of the worker are arbitrary. Logs and metrics are left out, and a
duration is in nanoseconds.
-/

/-- An error of a worker. -/
inductive WorkerError where
  | transient (msg : String)
  | fatal (msg : String)
  deriving DecidableEq, Repr

/-- How a task ends that does not return. -/
inductive JoinError where
  | panic
  | aborted
  deriving DecidableEq, Repr

/-- The waits of a supervisor. -/
structure BackoffConfig where
  minBackoff : ℕ
  maxBackoff : ℕ
  /-- How long a run takes to be healthy. -/
  healthyResetAfter : ℕ
  minBackoff_pos : 0 < minBackoff
  minBackoff_le : minBackoff ≤ maxBackoff

namespace BackoffConfig

/-- One second, thirty, and five minutes. -/
def default : BackoffConfig where
  minBackoff := 1_000_000_000
  maxBackoff := 30_000_000_000
  healthyResetAfter := 300_000_000_000
  minBackoff_pos := by decide
  minBackoff_le := by decide

variable (config : BackoffConfig)

/-- The wait after a number of failures: it doubles with each, up to the longest one. -/
def base (j : ℕ) : ℕ := min config.maxBackoff (config.minBackoff * 2 ^ j)

theorem base_zero : config.base 0 = config.minBackoff := by
  unfold base
  rw [pow_zero, mul_one]
  exact min_eq_right config.minBackoff_le

theorem base_succ (j : ℕ) : config.base (j + 1) = min (config.base j * 2) config.maxBackoff := by
  unfold base
  rw [pow_succ, ← mul_assoc]
  generalize config.minBackoff * 2 ^ j = n
  omega

/-- **Two numbers of failures have one wait only if they are one, or it is the longest.** -/
theorem base_eq_base_iff {j k : ℕ} (hjk : j ≤ k) : config.base k = config.base j
    ↔ j = k ∨ config.maxBackoff ≤ config.minBackoff * 2 ^ j := by
  have hmono : config.minBackoff * 2 ^ j ≤ config.minBackoff * 2 ^ k :=
    Nat.mul_le_mul_left _ (Nat.pow_le_pow_right Nat.zero_lt_two hjk)
  unfold base
  constructor
  · intro h
    by_cases hcap : config.maxBackoff ≤ config.minBackoff * 2 ^ j
    · exact .inr hcap
    · have hpow : config.minBackoff * 2 ^ k = config.minBackoff * 2 ^ j := by omega
      exact .inl (Nat.pow_right_injective le_rfl
        (Nat.eq_of_mul_eq_mul_left config.minBackoff_pos hpow)).symm
  · rintro (rfl | hcap)
    · rfl
    · rw [min_eq_left hcap, min_eq_left (le_trans hcap hmono)]

end BackoffConfig

/-- What a supervisor remembers. -/
structure Supervisor where
  /-- How often it started the worker. -/
  restartCount : ℕ := 0
  /-- The failures since its last reset. -/
  consecutiveFailures : ℕ := 0
  currentBackoff : ℕ
  /-- When the last healthy run began. -/
  lastHealthyAt : Option ℕ := none
  deriving DecidableEq, Repr

/-- Where a supervisor looks whether the service shuts down. -/
inductive ShutdownCheck where
  | loopTop
  | workerStop
  | cleanExit
  | cleanWait
  | backoffWait
  deriving DecidableEq, Repr

/-- One start of the worker, and what comes of it. -/
structure Attempt where
  /-- When the supervisor checks whether it may reset. -/
  checkedAt : ℕ
  startedAt : ℕ
  exitedAt : ℕ
  outcome : Except JoinError (Except WorkerError Unit)
  /-- Whether the service shuts down, where the supervisor looks. -/
  cancelled : ShutdownCheck → Bool := fun _ => false
  /-- A random number. -/
  rand : ℕ := 0

/-- What a supervisor does with an attempt. -/
structure Iteration where
  /-- The wait before the worker is started again after a failure. -/
  backoff : Option ℕ := none
  /-- How long it sleeps. -/
  sleep : ℕ := 0
  /-- What it goes on with, unless it returns. -/
  next : Option Supervisor := none

/-- A wait with a random half of it more or less, in whole milliseconds. -/
def applyJitter (base rand : ℕ) : ℕ :=
  let baseMs := base / 1_000_000
  if baseMs = 0 then base else (baseMs / 2 + rand % (baseMs + 1)) * 1_000_000

/-- **What is slept** is half the wait at least, and one and a half of it at most, but for a
millisecond. -/
theorem applyJitter_bounds (base rand : ℕ) : base ≤ applyJitter base rand * 2 + 2_000_000
    ∧ applyJitter base rand * 2 ≤ base * 3 := by
  unfold applyJitter
  have hrand : rand % (base / 1_000_000 + 1) < base / 1_000_000 + 1 :=
    Nat.mod_lt rand (Nat.succ_pos _)
  dsimp only
  split
  · omega
  · omega

namespace Supervisor

variable (config : BackoffConfig)

def new : Supervisor := { currentBackoff := config.minBackoff }

/-- A healthy run is one that lasted. -/
def Healthy (a : Attempt) : Prop := config.healthyResetAfter ≤ a.exitedAt - a.startedAt

instance (a : Attempt) : Decidable (Healthy config a) :=
  inferInstanceAs (Decidable (_ ≤ _))

/-- Count a failure, and remember when its run began if that was healthy. -/
def recordTransientFailure (a : Attempt) (s : Supervisor) : Supervisor :=
  let s := { s with consecutiveFailures := s.consecutiveFailures + 1 }
  if Healthy config a then { s with lastHealthyAt := some a.startedAt } else s

/-- Go back to the shortest wait if the last healthy run began not too long ago. -/
def maybeResetBackoff (now : ℕ) (s : Supervisor) : Supervisor :=
  if s.lastHealthyAt.any fun t => now - t < config.healthyResetAfter * 2 then
    { s with
      currentBackoff := config.minBackoff
      consecutiveFailures := 0
      lastHealthyAt := none }
  else s

/-- The rest of the loop, after a failure that may pass. -/
def restart (a : Attempt) (s : Supervisor) : Iteration where
  backoff := some s.currentBackoff
  sleep := applyJitter s.currentBackoff a.rand
  next :=
    if a.cancelled .backoffWait then none
    else some { s with currentBackoff := min (s.currentBackoff * 2) config.maxBackoff }

/-- The loop, once. -/
def iterate (s : Supervisor) (a : Attempt) : Iteration :=
  if a.cancelled .loopTop then {} else
  let s := maybeResetBackoff config a.checkedAt s
  let s := { s with restartCount := s.restartCount + 1 }
  if a.cancelled .workerStop then {} else
  match a.outcome with
  | .ok (.ok ()) =>
    let s := if Healthy config a then { s with lastHealthyAt := some a.startedAt } else s
    if a.cancelled .cleanExit then {}
    -- a clean exit leaves the wait as it is
    else { sleep := config.minBackoff, next := if a.cancelled .cleanWait then none else some s }
  | .ok (.error (.transient _)) => restart config a (recordTransientFailure config a s)
  | .ok (.error (.fatal _)) => {}
  | .error _ => restart config a (recordTransientFailure config a s)

/-- The supervisor after some attempts, the last of them first; `none` if it returned. -/
def run : List Attempt → Option Supervisor
  | [] => some (new config)
  | a :: attempts => (run attempts).bind fun s => (iterate config s a).next

/-! ## The law of the waits -/

/-- An attempt fails in a way that may pass. -/
def failed (a : Attempt) : Bool :=
  match a.outcome with
  | .ok (.ok ()) | .ok (.error (.fatal _)) => false
  | .ok (.error (.transient _)) | .error _ => true

/-- The failures after the last healthy run. -/
def failuresSinceHealthy : List Attempt → ℕ
  | [] => 0
  | a :: attempts =>
    if Healthy config a then 0 else failuresSinceHealthy attempts + (failed a).toNat

/-- The failures before an attempt that its wait is to follow: there are none if the attempt
itself is a healthy run. -/
def failuresBefore (a : Attempt) (attempts : List Attempt) : ℕ :=
  if Healthy config a then 0 else failuresSinceHealthy config attempts

/-- **The law of the waits** of a failure, after some attempts. -/
def BackoffLaw (a : Attempt) (attempts : List Attempt) (backoff : ℕ) : Prop :=
  backoff = config.base (failuresBefore config a attempts)

instance (a : Attempt) (attempts : List Attempt) (backoff : ℕ) :
    Decidable (BackoffLaw config a attempts backoff) :=
  inferInstanceAs (Decidable (_ = _))

/-- The failures after the last healthy run that was followed by a check early enough. -/
def failuresSinceReset : ℕ → List Attempt → ℕ
  | _, [] => 0
  | now, a :: attempts =>
    if Healthy config a ∧ now - a.startedAt < config.healthyResetAfter * 2 then 0
    else failuresSinceReset a.checkedAt attempts + (failed a).toNat

/-- The clock does not go back. The last attempt is first. -/
def Timed : List Attempt → Prop
  | [] => True
  | a :: attempts => a.checkedAt ≤ a.startedAt ∧ a.startedAt ≤ a.exitedAt
    ∧ (∀ b ∈ attempts.head?, b.exitedAt ≤ a.checkedAt) ∧ Timed attempts

/-! ## What one iteration does -/

variable {config} {s s' : Supervisor} {a : Attempt} {attempts : List Attempt} {now : ℕ}

/-- A check that comes later finds no reset that an earlier one did not. -/
theorem maybeResetBackoff_of_stale
    (hstale : ∀ t ∈ s.lastHealthyAt, config.healthyResetAfter * 2 ≤ now - t) :
    maybeResetBackoff config now s = s := by
  unfold maybeResetBackoff
  rw [if_neg]
  cases hlast : s.lastHealthyAt with
  | none => exact Bool.false_ne_true
  | some t =>
    have := hstale t hlast
    simpa using this

/-- After a check no healthy run is left that is new enough. -/
theorem stale_maybeResetBackoff : ∀ t ∈ (maybeResetBackoff config now s).lastHealthyAt,
    config.healthyResetAfter * 2 ≤ now - t := by
  intro t ht
  unfold maybeResetBackoff at ht
  split at ht
  · exact absurd ht (Option.not_mem_none t)
  · next hno =>
    rw [Option.mem_def.mp ht] at hno
    simpa using hno

@[simp] theorem currentBackoff_recordTransientFailure :
    (recordTransientFailure config a s).currentBackoff = s.currentBackoff := by
  unfold recordTransientFailure
  split <;> rfl

@[simp] theorem lastHealthyAt_recordTransientFailure :
    (recordTransientFailure config a s).lastHealthyAt
      = if Healthy config a then some a.startedAt else s.lastHealthyAt := by
  unfold recordTransientFailure
  split <;> rfl

/-- The branches of the loop: it returns, it goes on after a clean exit, or after a failure. -/
theorem iterate_cases (config : BackoffConfig) (s : Supervisor) (a : Attempt) :
    iterate config s a = {}
    ∨ ∃ s₁ : Supervisor,
      (failed a = false ∧ iterate config s a
          = { sleep := config.minBackoff
              next := if a.cancelled .cleanWait then none else some s₁ }
        ∨ failed a = true ∧ iterate config s a = restart config a s₁)
      ∧ s₁.currentBackoff = (maybeResetBackoff config a.checkedAt s).currentBackoff
      ∧ s₁.lastHealthyAt = if Healthy config a then some a.startedAt
          else (maybeResetBackoff config a.checkedAt s).lastHealthyAt := by
  unfold iterate failed
  by_cases htop : a.cancelled .loopTop = true
  · exact .inl (if_pos htop)
  by_cases hstop : a.cancelled .workerStop = true
  · rw [if_neg htop]
    exact .inl (if_pos hstop)
  rw [if_neg htop]
  dsimp only
  rw [if_neg hstop]
  cases a.outcome with
  | ok result =>
    cases result with
    | ok _ =>
      by_cases hclean : a.cancelled .cleanExit = true
      · exact .inl (if_pos hclean)
      · refine .inr ⟨_, .inl ⟨rfl, if_neg hclean⟩, ?_, ?_⟩
        · split <;> rfl
        · split <;> rfl
    | error e =>
      cases e with
      | transient msg => exact .inr ⟨_, .inr ⟨rfl, rfl⟩, by simp, by simp⟩
      | fatal msg => exact .inl rfl
  | error e => exact .inr ⟨_, .inr ⟨rfl, rfl⟩, by simp, by simp⟩

/-- **What a wait is**: a failure waits as the check before its run left it. -/
theorem backoff_iterate {backoff : ℕ} (h : (iterate config s a).backoff = some backoff) :
    backoff = (maybeResetBackoff config a.checkedAt s).currentBackoff := by
  obtain hreturn | ⟨s₁, ⟨-, hclean⟩ | ⟨-, hrestart⟩, hbackoff, -⟩ := iterate_cases config s a
  · rw [hreturn] at h
    exact absurd h.symm (Option.some_ne_none backoff)
  · rw [hclean] at h
    exact absurd h.symm (Option.some_ne_none backoff)
  · rw [hrestart] at h
    exact (Option.some.inj h).symm.trans hbackoff

/-- **What an iteration leaves**: the wait doubled if the run failed, and when it began if it
was healthy. -/
theorem next_iterate (h : (iterate config s a).next = some s') :
    s'.currentBackoff
        = (if failed a then
            min ((maybeResetBackoff config a.checkedAt s).currentBackoff * 2) config.maxBackoff
          else (maybeResetBackoff config a.checkedAt s).currentBackoff)
      ∧ s'.lastHealthyAt = if Healthy config a then some a.startedAt
          else (maybeResetBackoff config a.checkedAt s).lastHealthyAt := by
  obtain hreturn | ⟨s₁, ⟨hfailed, hclean⟩ | ⟨hfailed, hrestart⟩, hbackoff, hlast⟩ :=
    iterate_cases config s a
  · rw [hreturn] at h
    exact absurd h.symm (Option.some_ne_none s')
  · rw [hclean] at h
    dsimp only at h
    split at h
    · exact absurd h.symm (Option.some_ne_none s')
    · rw [← Option.some.inj h, hfailed]
      exact ⟨hbackoff, hlast⟩
  · rw [hrestart] at h
    unfold restart at h
    dsimp only at h
    split at h
    · exact absurd h.symm (Option.some_ne_none s')
    · rw [← Option.some.inj h, hfailed, ← hbackoff]
      exact ⟨rfl, hlast⟩

/-! ## What a run does -/

/-- **The wait that a check leaves counts the failures since the last reset.** The induction is
on the attempts; a healthy run that was too old for one check is too old for all later ones. -/
theorem currentBackoff_run (htimed : Timed attempts)
    (hnow : ∀ a ∈ attempts.head?, a.exitedAt ≤ now) (hrun : run config attempts = some s) :
    (maybeResetBackoff config now s).currentBackoff
      = config.base (failuresSinceReset config now attempts) := by
  induction attempts generalizing now s with
  | nil =>
    obtain rfl : new config = s := Option.some.inj hrun
    exact config.base_zero.symm
  | cons a attempts ih =>
    obtain ⟨hstart, hexit, hhead, htail⟩ := htimed
    obtain ⟨s₀, hrun₀, hnext⟩ := Option.bind_eq_some_iff.mp hrun
    have hexited : a.exitedAt ≤ now := hnow a rfl
    have hbefore := ih htail hhead hrun₀
    obtain ⟨hbackoff, hlast⟩ := next_iterate hnext
    unfold failuresSinceReset
    by_cases hreset : Healthy config a ∧ now - a.startedAt < config.healthyResetAfter * 2
    · rw [if_pos hreset, config.base_zero]
      unfold maybeResetBackoff
      rw [hlast, if_pos hreset.1, if_pos]
      exact decide_eq_true hreset.2
    · rw [if_neg hreset, maybeResetBackoff_of_stale, hbackoff, hbefore]
      · cases failed a with
        | true => exact (config.base_succ _).symm
        | false => rfl
      · intro t ht
        rw [hlast] at ht
        split at ht
        · next hhealthy =>
          obtain rfl : a.startedAt = t := Option.some.inj ht
          exact not_lt.mp fun hlt => hreset ⟨hhealthy, hlt⟩
        · have hstale := stale_maybeResetBackoff t ht
          omega

/-- At least the failures since the last healthy run count. -/
theorem failuresSinceHealthy_le (now : ℕ) (attempts : List Attempt) :
    failuresSinceHealthy config attempts ≤ failuresSinceReset config now attempts := by
  induction attempts generalizing now with
  | nil => exact le_rfl
  | cons a attempts ih =>
    unfold failuresSinceHealthy failuresSinceReset
    by_cases hhealthy : Healthy config a
    · rw [if_pos hhealthy]
      exact Nat.zero_le _
    · rw [if_neg hhealthy, if_neg fun h => hhealthy h.1]
      exact Nat.add_le_add_right (ih a.checkedAt) _

theorem failuresBefore_le : failuresBefore config a attempts
    ≤ failuresSinceReset config a.checkedAt attempts := by
  unfold failuresBefore
  split
  · exact Nat.zero_le _
  · exact failuresSinceHealthy_le a.checkedAt attempts

/-- **A wait follows the law exactly if no failure counts that should not**, or if it is the
longest one anyway. -/
theorem backoff_law_iff (config : BackoffConfig) (a : Attempt) (attempts : List Attempt)
    (s : Supervisor) (backoff : ℕ) (htimed : Timed (a :: attempts))
    (hrun : run config attempts = some s)
    (hbackoff : (iterate config s a).backoff = some backoff) :
    BackoffLaw config a attempts backoff
      ↔ failuresBefore config a attempts = failuresSinceReset config a.checkedAt attempts
        ∨ config.maxBackoff ≤ config.minBackoff * 2 ^ failuresBefore config a attempts := by
  obtain ⟨-, -, hhead, htail⟩ := htimed
  unfold BackoffLaw
  rw [backoff_iterate hbackoff, currentBackoff_run htail hhead hrun]
  exact config.base_eq_base_iff failuresBefore_le

section Runs

/-- A run of a second fails. -/
def shortRun : Attempt where
  checkedAt := 0
  startedAt := 0
  exitedAt := 1_000_000_000
  outcome := .ok (.error (.transient "connection refused"))
  rand := 500

/-- After a wait of a second, a run of ten minutes and a second fails. -/
def longRun : Attempt where
  checkedAt := 2_000_000_000
  startedAt := 2_000_000_000
  exitedAt := 603_000_000_000
  outcome := .ok (.error (.transient "connection reset"))
  rand := 1000

/-- After a wait of two seconds, a run of a second fails. -/
def lastRun : Attempt where
  checkedAt := 605_000_000_000
  startedAt := 605_000_000_000
  exitedAt := 606_000_000_000
  outcome := .error .panic

/-- The conditions hold of a second failure after a short run. -/
theorem backoff_law_iff_secondFailure :
    Timed [lastRun, shortRun]
    ∧ BackoffLaw .default lastRun [shortRun] 2_000_000_000 := by
  have htimed : Timed [lastRun, shortRun] := by
    simp [Timed, lastRun, shortRun]
  exact ⟨htimed, (backoff_law_iff .default lastRun [shortRun] _ _ htimed rfl rfl).mpr (.inl rfl)⟩

/-- A run of ten minutes is healthy, and is waited for twice as long as it should be; so is the
run after it, four times. -/
theorem longRun_not_backoff_law : Timed [lastRun, longRun, shortRun]
    ∧ Healthy .default longRun
    ∧ (∃ s, run .default [shortRun] = some s
      ∧ (iterate .default s longRun).backoff = some 2_000_000_000
      ∧ ¬ BackoffLaw .default longRun [shortRun] 2_000_000_000)
    ∧ ∃ s, run .default [longRun, shortRun] = some s
      ∧ (iterate .default s lastRun).backoff = some 4_000_000_000
      ∧ ¬ BackoffLaw .default lastRun [longRun, shortRun] 4_000_000_000 := by
  refine ⟨by simp [Timed, lastRun, longRun, shortRun], by decide, ⟨_, rfl, rfl, by decide⟩,
    ⟨_, rfl, rfl, by decide⟩⟩

end Runs

end Supervisor
