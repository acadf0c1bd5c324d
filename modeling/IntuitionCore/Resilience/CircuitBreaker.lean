import IntuitionCore.Library.Run
import Mathlib.Algebra.Group.Nat.Defs

/-!
# The circuit breaker

A circuit breaker protects a database from calls while it is known to be
unhealthy. It is closed, and counts failures in a row; or it is open, and rejects
operations until the probe interval has passed; or it is half-open, and lets an
operation through to test recovery.

Its state is behind a mutex, so the calls of the workers that share it come one
after the other, each at a time that is not before that of the one before. The
result of an operation may be recorded in any state: the operation may have been
let through in an earlier one.

Times and durations are in nanoseconds.
-/

/-- The phase a circuit breaker is in. -/
inductive CircuitState where
  /-- Operations pass through, and consecutive failures are counted. -/
  | closed
  /-- Operations are rejected. -/
  | opened
  /-- One probe operation is allowed through to test recovery. -/
  | halfOpen
  deriving DecidableEq, Repr

/-- What is returned while the circuit is open and the probe interval has not
passed. -/
structure CircuitOpen where
  name : String
  openedDuration : ℕ
  nextProbeIn : ℕ
  deriving DecidableEq, Repr

/-- The configuration of a circuit breaker. -/
structure CircuitBreakerConfig where
  failureThreshold : ℕ := 5
  initialProbeInterval : ℕ := 5_000_000_000
  maxProbeInterval : ℕ := 30_000_000_000
  /-- The threshold is a `u32`. -/
  failureThreshold_lt : failureThreshold < 2 ^ 32 := by decide
  deriving DecidableEq, Repr

/-- A circuit breaker, without what its mutex holds. -/
structure CircuitBreaker where
  name : String
  config : CircuitBreakerConfig
  deriving DecidableEq, Repr

namespace CircuitBreaker

/-- What the mutex holds. -/
structure Inner where
  state : CircuitState
  consecutiveFailures : ℕ
  probeInterval : ℕ
  /-- When the circuit last went from closed to open. -/
  openedAt : Option ℕ
  openCount : ℕ
  deriving DecidableEq, Repr

/-- A breaker with the default configuration. -/
def withDefaults (name : String) : CircuitBreaker := { name, config := {} }

variable (cb : CircuitBreaker)

/-- What a new breaker holds. -/
def new : Inner :=
  { state := .closed
    consecutiveFailures := 0
    probeInterval := cb.config.initialProbeInterval
    openedAt := none
    openCount := 0 }

/-- The next probe interval, by exponential backoff with equal jitter: half of the
capped interval, and up to as much again. -/
def nextProbeInterval (attempt rand : ℕ) : ℕ :=
  let base := cb.config.initialProbeInterval % 2 ^ 64
  let max := cb.config.maxProbeInterval % 2 ^ 64
  let shift := min attempt 62
  -- the multiplication saturates
  let cap := min (min (base * 2 ^ shift) (2 ^ 64 - 1)) max
  let half := cap / 2
  let jitter := if 0 < half then rand % half else 0
  half + jitter

/-- Whether an operation may proceed. There is no answer where the code panics,
which is where the circuit is open and it is not known since when. -/
def check (inner : Inner) (now : ℕ) : Option (Except CircuitOpen Unit × Inner) :=
  match inner.state with
  | .closed | .halfOpen => some (.ok (), inner)
  | .opened => do
    let openedAt ← inner.openedAt
    let elapsed := now - openedAt
    if inner.probeInterval ≤ elapsed then
      some (.ok (), { inner with state := .halfOpen })
    else
      some (.error
        { name := cb.name
          openedDuration := elapsed
          nextProbeIn := inner.probeInterval - elapsed }, inner)

/-- The most recent operation succeeded. -/
def recordSuccess (inner : Inner) : Inner :=
  if inner.state = .halfOpen then
    { state := .closed
      consecutiveFailures := 0
      probeInterval := cb.config.initialProbeInterval
      openedAt := none
      openCount := 0 }
  else { inner with consecutiveFailures := 0 }

/-- The most recent operation failed. -/
def recordFailure (inner : Inner) (now rand : ℕ) : Inner :=
  let inner := { inner with consecutiveFailures := (inner.consecutiveFailures + 1) % 2 ^ 32 }
  -- the count of openings saturates
  let openCount := min (inner.openCount + 1) (2 ^ 32 - 1)
  match inner.state with
  | .closed =>
    if cb.config.failureThreshold ≤ inner.consecutiveFailures then
      { inner with
        openCount
        probeInterval := cb.nextProbeInterval openCount rand
        state := .opened
        openedAt := some now }
    else inner
  | .halfOpen =>
    -- the time of opening is kept, so the recovery window does not slide forward
    { inner with
      openCount
      probeInterval := cb.nextProbeInterval openCount rand
      state := .opened }
  | .opened => inner

/-! ## Runs -/

/-- A call of a worker. It does not say of which: the breaker cannot tell. -/
inductive Op where
  | check
  | recordSuccess
  /-- `rand` is the number drawn for the jitter. -/
  | recordFailure (rand : ℕ)
  deriving DecidableEq, Repr

/-- A call, some time after the one before. -/
structure Call where
  wait : ℕ
  op : Op
  deriving DecidableEq, Repr

/-- A breaker that is in use. -/
structure InUse where
  inner : Inner
  /-- The time of the last call. -/
  clock : ℕ := 0
  /-- Since the circuit went from open to half-open, how many operations were let
  through, that which found the probe due included. A result that is recorded
  ends the count. Nothing reads it. -/
  admitted : Option ℕ := none
  deriving DecidableEq, Repr

/-- A breaker that was not used yet. -/
def start : InUse := { inner := cb.new }

/-- The count of the operations that were let through, after another one was. -/
def InUse.admit (s : InUse) : Option ℕ :=
  if s.inner.state = .opened then some 1 else s.admitted.map (· + 1)

/-- What a call does, unless the code panics. -/
def step (s : InUse) (call : Call) : Option InUse :=
  let clock := s.clock + call.wait
  match call.op with
  | .check =>
    (cb.check s.inner clock).map fun
      | (.ok (), inner) => { inner, clock, admitted := s.admit }
      | (.error _, inner) => { s with inner, clock }
  | .recordSuccess => some { inner := cb.recordSuccess s.inner, clock }
  | .recordFailure rand => some { inner := cb.recordFailure s.inner clock rand, clock }

/-- The failures since the last success, with another call. -/
def countFailure (failures : ℕ) (call : Call) : ℕ :=
  match call.op with
  | .check => failures
  | .recordSuccess => 0
  | .recordFailure _ => failures + 1

/-- The failures that were recorded since the last success was. -/
def failuresSinceSuccess (calls : List Call) : ℕ := calls.foldl countFailure 0

/-! ## What a call does -/

variable {cb} {inner inner' : Inner} {now rand failures : ℕ} {s s' : InUse} {call : Call}

/-- A check is answered unless the time of an opening is not known. -/
theorem check_isSome (h : inner.state ≠ .closed → inner.openedAt.isSome) (now : ℕ) :
    (cb.check inner now).isSome := by
  unfold check
  cases hstate : inner.state with
  | closed => rfl
  | halfOpen => rfl
  | opened =>
    obtain ⟨openedAt, hopenedAt⟩ := Option.isSome_iff_exists.mp (h (by simp [hstate]))
    simp only [hopenedAt, Option.bind_eq_bind, Option.bind_some]
    split <;> rfl

/-- **What a check answers.** It lets the operation through and changes nothing,
or finds the probe due in an open circuit, or rejects the operation. -/
theorem check_cases {answer : Except CircuitOpen Unit}
    (h : cb.check inner now = some (answer, inner')) :
    (inner.state ≠ .opened ∧ answer = .ok () ∧ inner' = inner)
    ∨ (inner.state = .opened ∧ answer = .ok () ∧ inner' = { inner with state := .halfOpen })
    ∨ (inner.state = .opened ∧ (∃ e, answer = .error e) ∧ inner' = inner) := by
  unfold check at h
  cases hstate : inner.state with
  | closed =>
    simp only [hstate] at h
    cases h
    exact .inl ⟨by simp, rfl, rfl⟩
  | halfOpen =>
    simp only [hstate] at h
    cases h
    exact .inl ⟨by simp, rfl, rfl⟩
  | opened =>
    simp only [hstate] at h
    obtain ⟨openedAt, -, h⟩ := Option.bind_eq_some_iff.mp h
    split at h
    · cases h
      exact .inr (.inl ⟨rfl, rfl, rfl⟩)
    · cases h
      exact .inr (.inr ⟨rfl, ⟨_, rfl⟩, rfl⟩)

/-! ## The representation invariant -/

/-- **The representation invariant** of a breaker that recorded these failures since
the last success. -/
structure Inv (cb : CircuitBreaker) (failures : ℕ) (inner : Inner) : Prop where
  /-- The time of opening is known while the circuit is not closed. -/
  openedAt_isSome : inner.state ≠ .closed → inner.openedAt.isSome
  consecutiveFailures_eq : inner.consecutiveFailures = failures % 2 ^ 32
  /-- A closed circuit is below the threshold. -/
  failures_lt : inner.state = .closed → failures < cb.config.failureThreshold

/-- A closed breaker counts the failures as they are. -/
theorem Inv.consecutiveFailures_of_closed (h : cb.Inv failures inner)
    (hclosed : inner.state = .closed) : inner.consecutiveFailures = failures := by
  have hlt := h.failures_lt hclosed
  have hu32 := cb.config.failureThreshold_lt
  rw [h.consecutiveFailures_eq, Nat.mod_eq_of_lt (by omega)]

theorem Inv.new (h : 1 ≤ cb.config.failureThreshold) : cb.Inv 0 cb.new :=
  ⟨fun hopen => absurd rfl hopen, rfl, fun _ => h⟩

theorem Inv.check {answer : Except CircuitOpen Unit} (h : cb.Inv failures inner)
    (hcheck : cb.check inner now = some (answer, inner')) : cb.Inv failures inner' := by
  obtain ⟨-, -, rfl⟩ | ⟨hopened, -, rfl⟩ | ⟨-, -, rfl⟩ := check_cases hcheck
  · exact h
  · exact ⟨fun _ => h.openedAt_isSome (by simp [hopened]), h.consecutiveFailures_eq, nofun⟩
  · exact h

theorem Inv.recordSuccess (hthreshold : 1 ≤ cb.config.failureThreshold)
    (h : cb.Inv failures inner) : cb.Inv 0 (cb.recordSuccess inner) := by
  unfold CircuitBreaker.recordSuccess
  split
  · exact ⟨fun hopen => absurd rfl hopen, rfl, fun _ => hthreshold⟩
  · exact ⟨h.openedAt_isSome, rfl, fun _ => hthreshold⟩

/-- One more failure is counted, up to the overflow. -/
theorem Inv.count_succ (h : cb.Inv failures inner) :
    (inner.consecutiveFailures + 1) % 2 ^ 32 = (failures + 1) % 2 ^ 32 := by
  rw [h.consecutiveFailures_eq, Nat.mod_add_mod]

/-- **A closed breaker opens at the failure that reaches the threshold.** -/
theorem Inv.recordFailure_state (h : cb.Inv failures inner) (hclosed : inner.state = .closed) :
    (cb.recordFailure inner now rand).state
      = if failures + 1 = cb.config.failureThreshold then .opened else .closed := by
  have hlt := h.failures_lt hclosed
  have hu32 := cb.config.failureThreshold_lt
  have hcount : (inner.consecutiveFailures + 1) % 2 ^ 32 = failures + 1 := by
    rw [h.count_succ, Nat.mod_eq_of_lt (by omega)]
  simp only [CircuitBreaker.recordFailure, hclosed, hcount]
  by_cases hreached : failures + 1 = cb.config.failureThreshold
  · simp [hreached]
  · rw [if_neg (by omega), if_neg hreached]

theorem Inv.recordFailure (h : cb.Inv failures inner) :
    cb.Inv (failures + 1) (cb.recordFailure inner now rand) := by
  refine ⟨fun hopen => ?_, ?_, fun hclosed' => ?_⟩
  · unfold CircuitBreaker.recordFailure at hopen ⊢
    cases hstate : inner.state with
    | closed =>
      simp only [hstate] at hopen ⊢
      split at hopen <;> simp_all
    | opened => simpa [hstate] using h.openedAt_isSome (by simp [hstate])
    | halfOpen => simpa [hstate] using h.openedAt_isSome (by simp [hstate])
  · rw [← h.count_succ]
    unfold CircuitBreaker.recordFailure
    cases inner.state with
    | closed => simp only; split <;> rfl
    | opened => rfl
    | halfOpen => rfl
  · -- only a closed breaker is closed after a failure
    cases hstate : inner.state with
    | closed =>
      have hlt := h.failures_lt hstate
      rw [h.recordFailure_state hstate] at hclosed'
      split at hclosed'
      · cases hclosed'
      · omega
    | opened => simp [CircuitBreaker.recordFailure, hstate] at hclosed'
    | halfOpen => simp [CircuitBreaker.recordFailure, hstate] at hclosed'

/-- A call keeps the invariant, and the code does not panic. -/
theorem Inv.step (hthreshold : 1 ≤ cb.config.failureThreshold)
    (h : cb.Inv failures s.inner) (call : Call) :
    ∃ s', cb.step s call = some s' ∧ cb.Inv (countFailure failures call) s'.inner := by
  obtain ⟨wait, op⟩ := call
  cases op with
  | check =>
    have hanswered : (cb.check s.inner (s.clock + wait)).isSome :=
      check_isSome h.openedAt_isSome _
    obtain ⟨⟨answer, inner'⟩, hcheck⟩ := Option.isSome_iff_exists.mp hanswered
    refine ⟨_, by simp only [CircuitBreaker.step, hcheck, Option.map_some]; rfl, ?_⟩
    cases answer <;> exact h.check hcheck
  | recordSuccess => exact ⟨_, rfl, h.recordSuccess hthreshold⟩
  | recordFailure rand => exact ⟨_, rfl, h.recordFailure⟩

/-- Calls keep the invariant, and the code does not panic. -/
theorem Inv.follow (hthreshold : 1 ≤ cb.config.failureThreshold)
    (h : cb.Inv failures s.inner) (calls : List Call) :
    ∃ s', Run.follow cb.step s calls = some s'
      ∧ cb.Inv (calls.foldl countFailure failures) s'.inner := by
  induction calls generalizing failures s with
  | nil => exact ⟨s, rfl, h⟩
  | cons call calls ih =>
    obtain ⟨s₁, hs₁, h₁⟩ := h.step hthreshold call
    obtain ⟨s', hs', h'⟩ := ih h₁
    exact ⟨s', Option.bind_eq_some_iff.mpr ⟨s₁, hs₁, hs'⟩, h'⟩

/-- **A closed circuit opens at the failure that reaches the threshold**, and at
no other call. -/
theorem Inv.opens_iff (h : cb.Inv failures s.inner) (hclosed : s.inner.state = .closed)
    (hstep : cb.step s call = some s') :
    s'.inner.state = .opened ↔
      (∃ rand, call.op = .recordFailure rand)
        ∧ failures + 1 = cb.config.failureThreshold := by
  obtain ⟨wait, op⟩ := call
  cases op with
  | check =>
    obtain ⟨⟨answer, inner'⟩, hcheck, rfl⟩ := Option.map_eq_some_iff.mp hstep
    obtain ⟨-, rfl, rfl⟩ | ⟨hopened, -⟩ | ⟨hopened, -⟩ := check_cases hcheck
    · simp [hclosed]
    · simp [hclosed] at hopened
    · simp [hclosed] at hopened
  | recordSuccess =>
    cases hstep
    simp [CircuitBreaker.recordSuccess, hclosed]
  | recordFailure rand =>
    cases hstep
    rw [h.recordFailure_state hclosed]
    split <;> simp_all

end CircuitBreaker

open CircuitBreaker

/-- **The representation invariant of the breaker.** Whatever calls its workers
make, and whenever, the code does not panic; the time of opening is known unless
the circuit is closed; a closed circuit has fewer failures in a row than the
threshold; and it opens exactly when a failure is recorded that makes as many
since the last success as the threshold. -/
theorem circuitBreaker_invariant (cb : CircuitBreaker)
    (hthreshold : 1 ≤ cb.config.failureThreshold) (calls : List Call) :
    ∃ s, Run.follow cb.step cb.start calls = some s
      ∧ (s.inner.state = .opened ∨ s.inner.state = .halfOpen → s.inner.openedAt.isSome)
      ∧ (s.inner.state = .closed →
        s.inner.consecutiveFailures < cb.config.failureThreshold)
      ∧ ∀ call, ∃ s', cb.step s call = some s'
        ∧ (s.inner.state = .closed ∧ s'.inner.state = .opened ↔
          s.inner.state = .closed ∧ (∃ rand, call.op = .recordFailure rand)
            ∧ failuresSinceSuccess (calls ++ [call]) = cb.config.failureThreshold) := by
  obtain ⟨s, hs, h⟩ := (Inv.new hthreshold).follow (s := cb.start) hthreshold calls
  refine ⟨s, hs, fun hopen => h.openedAt_isSome ?_, fun hclosed => ?_, fun call => ?_⟩
  · obtain hstate | hstate := hopen <;> simp [hstate]
  · rw [h.consecutiveFailures_of_closed hclosed]
    exact h.failures_lt hclosed
  · obtain ⟨s', hs', -⟩ := h.step hthreshold call
    refine ⟨s', hs', and_congr_right fun hclosed => (h.opens_iff hclosed hs').trans ?_⟩
    refine and_congr_right fun ⟨rand, hop⟩ => ?_
    rw [failuresSinceSuccess, List.foldl_append, List.foldl_cons, List.foldl_nil,
      countFailure, hop]

/-- The breaker of the PostgreSQL sink is used with the default threshold: the
fifth failure opens it. -/
theorem circuitBreaker_invariant_withDefaults :
    1 ≤ (withDefaults "postgres").config.failureThreshold
      ∧ ∃ s, Run.follow (withDefaults "postgres").step (withDefaults "postgres").start
          (List.replicate 4 ⟨1, .recordFailure 0⟩) = some s
        ∧ (s.inner.state = .closed → s.inner.consecutiveFailures < 5)
        ∧ ∃ s', (withDefaults "postgres").step s ⟨1, .recordFailure 0⟩ = some s'
          ∧ (s.inner.state = .closed ∧ s'.inner.state = .opened ↔ s.inner.state = .closed) := by
  have hthreshold : 1 ≤ (withDefaults "postgres").config.failureThreshold := by decide
  obtain ⟨s, hs, -, hlt, hopens⟩ :=
    circuitBreaker_invariant _ hthreshold (List.replicate 4 ⟨1, .recordFailure 0⟩)
  obtain ⟨s', hs', hiff⟩ := hopens ⟨1, .recordFailure 0⟩
  exact ⟨hthreshold, s, hs, hlt, s', hs',
    hiff.trans (and_iff_left ⟨⟨0, rfl⟩, by decide⟩)⟩

/-! ## Probes -/

namespace CircuitBreaker

/-- **One probe at a time**: since the circuit went from open to half-open, and
until a result is recorded, at most one operation is let through. -/
def OneProbe (s : InUse) : Prop := ∀ n ∈ s.admitted, n ≤ 1

/-- No worker checks the circuit while another one probes. -/
def MayCheck (s : InUse) (call : Call) : Prop :=
  call.op = .check → s.inner.state ≠ .halfOpen

/-- Operations are counted exactly while the circuit is half-open, and the one
that found the probe due is among them. -/
def CountsProbes (s : InUse) : Prop :=
  if s.inner.state = .halfOpen then ∃ n, s.admitted = some (n + 1) else s.admitted = none

variable {cb : CircuitBreaker} {inner : Inner} {now rand : ℕ} {s s' : InUse} {call : Call}

/-- No circuit is half-open after a result was recorded. -/
theorem recordSuccess_state_ne : (cb.recordSuccess inner).state ≠ .halfOpen := by
  unfold recordSuccess
  split
  · simp
  · assumption

theorem recordFailure_state_ne : (cb.recordFailure inner now rand).state ≠ .halfOpen := by
  unfold recordFailure
  cases hstate : inner.state with
  | closed => simp only; split <;> simp
  | opened => simp
  | halfOpen => simp

theorem countsProbes_start : CountsProbes cb.start := by simp [CountsProbes, start, new]

/-- **A check that is let through counts**: as the first one where the circuit was
open. -/
theorem CountsProbes.step (h : CountsProbes s) (hstep : cb.step s call = some s') :
    CountsProbes s' ∧ (OneProbe s' ↔ MayCheck s call) := by
  obtain ⟨wait, op⟩ := call
  cases op with
  | check =>
    obtain ⟨⟨answer, inner'⟩, hcheck, rfl⟩ := Option.map_eq_some_iff.mp hstep
    obtain ⟨hopened, rfl, rfl⟩ | ⟨hopened, rfl, rfl⟩ | ⟨hopened, ⟨e, rfl⟩, rfl⟩ :=
      check_cases hcheck
    · by_cases hhalf : s.inner.state = .halfOpen
      · -- another operation is let through while one probes
        obtain ⟨n, hn⟩ := (if_pos hhalf).mp h
        simp [CountsProbes, OneProbe, MayCheck, InUse.admit, hhalf, hn]
      · have hn : s.admitted = none := (if_neg hhalf).mp h
        simp [CountsProbes, OneProbe, MayCheck, InUse.admit, hhalf, hopened, hn]
    · simp [CountsProbes, OneProbe, MayCheck, InUse.admit, hopened]
    · have hn : s.admitted = none := by simpa [CountsProbes, hopened] using h
      simp [CountsProbes, OneProbe, MayCheck, hopened, hn]
  | recordSuccess =>
    cases hstep
    simp [CountsProbes, OneProbe, MayCheck, recordSuccess_state_ne]
  | recordFailure rand =>
    cases hstep
    simp [CountsProbes, OneProbe, MayCheck, recordFailure_state_ne]

end CircuitBreaker

/-- **One probe is let through exactly if no worker checks while another one
probes.** Whatever calls the workers make, and whenever: between each time that
the circuit goes from open to half-open and the next result that is recorded, at
most one operation is let through, if and only if no check is made while the
circuit is half-open. -/
theorem one_probe_iff (cb : CircuitBreaker) (calls : List Call) :
    Run.Always cb.step OneProbe cb.start calls
      ↔ Run.EachStep cb.step MayCheck cb.start calls :=
  Run.always_iff_eachStep (I := CountsProbes) (fun _ _ _ h hstep => (h.step hstep).1)
    (fun _ _ _ h _ hstep => (h.step hstep).2) countsProbes_start (by simp [OneProbe, start]) calls

/-- The database recovers. Five operations fail and open the circuit; when the
probe is due, three workers check before one of them is done. -/
def threeWorkersProbe : List Call :=
  (List.replicate 5 [⟨1, .check⟩, ⟨1, .recordFailure 0⟩]).flatten
    ++ [⟨30_000_000_000, .check⟩, ⟨1, .check⟩, ⟨1, .check⟩]

/-- **More than one probe can be let through.** -/
theorem threeWorkersProbe_admitted :
    ¬ ∀ (cb : CircuitBreaker) (calls : List Call) (s : InUse),
      Run.follow cb.step cb.start calls = some s → OneProbe s := by
  intro h
  have hrun : (Run.follow (withDefaults "postgres").step (withDefaults "postgres").start
      threeWorkersProbe).map (fun s => (s.inner.state, s.admitted))
        = some (.halfOpen, some 3) := by
    decide +kernel
  obtain ⟨s, hs, heq⟩ := Option.map_eq_some_iff.mp hrun
  simp only [Prod.mk.injEq] at heq
  exact absurd (h _ _ s hs 3 heq.2) (by decide)
