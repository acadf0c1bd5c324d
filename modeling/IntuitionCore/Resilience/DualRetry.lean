import IntuitionCore.Resilience.Probes
import IntuitionCore.Resilience.Retry
import Mathlib.Logic.Function.Basic

/-!
# The loop of the dual write

The worker of the core entities writes to two databases, each with a circuit breaker of its
own, so it has a retry loop of its own: an attempt checks both breakers, acquires a
connection permit and calls the projection; a failure is recorded on the breaker of the
database it came from, a success on both.

Both breakers are shared with other workers. Between two calls of this worker there may be
any calls of the others, at any times.

A check is not without effect: it may take a breaker that is open to half-open, which is
to say that a probe is on its way. Not every attempt that does so sends one.
-/

/-! ## A breaker that is shared -/

/-- A breaker in use, with what its check relies on: the time of opening is known unless the
circuit is closed. -/
structure SharedBreaker where
  inUse : CircuitBreaker.InUse
  openedAt_isSome : inUse.inner.state ≠ .closed → inUse.inner.openedAt.isSome

namespace SharedBreaker

open CircuitBreaker

variable (cb : CircuitBreaker) (s : SharedBreaker)

/-- The phase the breaker is in. -/
def state : CircuitState := s.inUse.inner.state

theorem check_isSome (wait : ℕ) :
    (cb.check s.inUse.inner (s.inUse.clock + wait)).isSome :=
  CircuitBreaker.check_isSome s.openedAt_isSome _

theorem step_isSome (call : Call) : (cb.step s.inUse call).isSome := by
  obtain ⟨wait, op⟩ := call
  cases op with
  | check => exact (Option.isSome_map ..).trans (s.check_isSome cb wait)
  | recordSuccess => rfl
  | recordFailure rand => rfl

/-- What the breaker answers to a check, some time after the last call. -/
def answer (wait : ℕ) : Except CircuitOpen Unit :=
  ((cb.check s.inUse.inner (s.inUse.clock + wait)).get (s.check_isSome cb wait)).1

/-- A call of a worker. -/
def step (call : Call) : SharedBreaker where
  inUse := (cb.step s.inUse call).get (s.step_isSome cb call)
  openedAt_isSome hopen := by
    have hstep := (Option.some_get (s.step_isSome cb call)).symm
    rw [openedAt_of_open hstep hopen]
    split
    · rfl
    · exact s.openedAt_isSome ‹_›

/-- Calls of other workers. -/
def steps (calls : List Call) : SharedBreaker := calls.foldl (step cb) s

/-- A probe is due: the breaker is open, and its interval has passed. -/
def ProbeDue (wait : ℕ) : Prop :=
  s.state = .opened
    ∧ ∀ t ∈ s.inUse.inner.openedAt, s.inUse.inner.probeInterval ≤ s.inUse.clock + wait - t

instance (wait : ℕ) : Decidable (s.ProbeDue wait) := by
  unfold ProbeDue
  infer_instance

/-- The breaker lets an operation through. -/
def Admits (wait : ℕ) : Prop := s.state ≠ .opened ∨ s.ProbeDue wait

instance (wait : ℕ) : Decidable (s.Admits wait) := by
  unfold Admits
  infer_instance

variable {s} {wait : ℕ}

variable (s wait) in
/-- The answer of a check, and what it leaves. -/
theorem check_eq :
    cb.check s.inUse.inner (s.inUse.clock + wait)
      = some (s.answer cb wait, (s.step cb ⟨wait, .check⟩).inUse.inner) := by
  obtain ⟨⟨answer, inner'⟩, hcheck⟩ := Option.isSome_iff_exists.mp (s.check_isSome cb wait)
  have hanswer : s.answer cb wait = answer := by
    unfold SharedBreaker.answer
    simp only [hcheck, Option.get_some]
  have hinner : (s.step cb ⟨wait, .check⟩).inUse.inner = inner' := by
    unfold SharedBreaker.step
    cases answer <;> simp only [CircuitBreaker.step, hcheck, Option.map_some, Option.get_some]
  rw [hcheck, hanswer, hinner]

/-- The interval has passed since a time that is known. -/
theorem probeDue_iff {t : ℕ} (hopened : s.state = .opened)
    (ht : s.inUse.inner.openedAt = some t) :
    s.ProbeDue wait ↔ s.inUse.inner.probeInterval ≤ s.inUse.clock + wait - t := by
  refine ⟨fun h => h.2 t ht, fun h => ⟨hopened, fun t' ht' => ?_⟩⟩
  cases ht.symm.trans ht'
  exact h

variable (s wait) in
/-- **What a check does.** It finds a probe due, and takes the breaker to half-open; or it
leaves the breaker in its phase, and refuses exactly where it is open. -/
theorem check_spec :
    (s.ProbeDue wait ∧ s.answer cb wait = .ok () ∧ (s.step cb ⟨wait, .check⟩).state = .halfOpen)
      ∨ (¬ s.ProbeDue wait ∧ (s.step cb ⟨wait, .check⟩).state = s.state
        ∧ (s.answer cb wait = .ok () ↔ s.state ≠ .opened)) := by
  have hcheck := check_eq cb s wait
  by_cases hopened : s.state = .opened
  · have hstate : s.inUse.inner.state = .opened := hopened
    obtain ⟨t, ht⟩ := Option.isSome_iff_exists.mp
      (s.openedAt_isSome (by rw [hstate]; nofun))
    unfold CircuitBreaker.check at hcheck
    rw [hstate, ht] at hcheck
    by_cases hpassed : s.inUse.inner.probeInterval ≤ s.inUse.clock + wait - t
    · obtain ⟨hanswer, hinner⟩ :=
        Prod.mk.inj (Option.some.inj ((if_pos hpassed).symm.trans hcheck))
      exact .inl ⟨(probeDue_iff hopened ht).mpr hpassed, hanswer.symm,
        congrArg Inner.state hinner.symm⟩
    · obtain ⟨hanswer, hinner⟩ :=
        Prod.mk.inj (Option.some.inj ((if_neg hpassed).symm.trans hcheck))
      refine .inr ⟨fun h => hpassed ((probeDue_iff hopened ht).mp h),
        congrArg Inner.state hinner.symm, fun hok => ?_, fun h => absurd hopened h⟩
      rw [hok] at hanswer
      cases hanswer
  · obtain ⟨-, hanswer, hinner⟩ | ⟨hopened', -⟩ | ⟨hopened', -⟩ := check_cases hcheck
    · exact .inr ⟨fun h => hopened h.1, congrArg Inner.state hinner, fun _ => hopened,
        fun _ => hanswer⟩
    · exact absurd hopened' hopened
    · exact absurd hopened' hopened

/-- A check lets an operation through exactly where the breaker admits it. -/
theorem answer_eq_ok_iff : s.answer cb wait = .ok () ↔ s.Admits wait := by
  obtain ⟨hdue, hok, -⟩ | ⟨hdue, -, hiff⟩ := check_spec cb s wait
  · exact iff_of_true hok (.inr hdue)
  · rw [hiff]
    exact (or_iff_left hdue).symm

/-- A check takes an open breaker to half-open exactly where a probe is due. -/
theorem moved_iff :
    s.state = .opened ∧ (s.step cb ⟨wait, .check⟩).state = .halfOpen ↔ s.ProbeDue wait := by
  obtain ⟨hdue, -, hhalf⟩ | ⟨hdue, hsame, -⟩ := check_spec cb s wait
  · exact iff_of_true ⟨hdue.1, hhalf⟩ hdue
  · refine iff_of_false (fun h => ?_) hdue
    rw [hsame, h.1] at h
    exact absurd h.2 nofun

end SharedBreaker

/-! ## The projection -/

/-- The databases of the dual write. -/
inductive DualStore where
  | surreal
  | pg
  deriving DecidableEq, Repr

/-- What the sink of SurrealDB fails with. -/
inductive SurrealSinkError where
  | surreal (message : String)
  | sink (message : String)
  | uniqueConstraintViolation (message : String)
  deriving DecidableEq, Repr

def SurrealSinkError.toProjectionError : SurrealSinkError → ProjectionError
  | surreal message => .surreal message
  | sink message => .sink message
  | uniqueConstraintViolation message => .uniqueConstraintViolation message

/-- What comes of the steps of a batch. No step is taken after one that failed. -/
structure BatchSteps where
  /-- Planning fails on a field that is missing. -/
  plan : Except String Unit := .ok ()
  applyBatch : Except SurrealSinkError Unit := .ok ()
  commit : Except String Unit := .ok ()
  writeKg : Except String Unit := .ok ()

/-- The step a batch fails in. -/
inductive BatchFailure where
  | fatal
  | surreal
  | term
  | kg
  deriving DecidableEq, Repr

namespace BatchSteps

def processParsedBatch (steps : BatchSteps) : Except ProjectionError Unit := do
  steps.plan.mapError .missingField
  steps.applyBatch.mapError SurrealSinkError.toProjectionError
  steps.commit.mapError .database
  steps.writeKg.mapError .database

/-- The step a batch fails in, if it does. -/
def failure (steps : BatchSteps) : Option BatchFailure :=
  match steps.plan, steps.applyBatch, steps.commit, steps.writeKg with
  | .error _, _, _, _ => some .fatal
  | .ok (), .error (.uniqueConstraintViolation _), _, _ => some .fatal
  | .ok (), .error (.surreal _), _, _ => some .surreal
  | .ok (), .error (.sink _), _, _ => some .surreal
  | .ok (), .ok (), .error _, _ => some .term
  | .ok (), .ok (), .ok (), .error _ => some .kg
  | .ok (), .ok (), .ok (), .ok () => none

end BatchSteps

/-! ## The loop -/

/-- What the loop does, as seen by the breakers, the projection and the watchdog. -/
inductive DualEvent where
  /-- A check, with the phase it finds the breaker in and the one it leaves it in. -/
  | check (store : DualStore) (found : CircuitState) (answer : Except CircuitOpen Unit)
      (left : CircuitState)
  | permit (answer : Except String Unit)
  | call (steps : BatchSteps)
  | recordSuccess (store : DualStore)
  | recordFailure (store : DualStore)
  /-- In nanoseconds. -/
  | sleep (duration : ℕ)
  | beat

/-- A breaker is called at most twice in an attempt. -/
inductive DualCall where
  | check
  | record
  deriving DecidableEq, Repr

/-- What the loop is given, and what it meets. -/
structure DualContext where
  cb : DualStore → CircuitBreaker
  policy : RetryPolicy
  /-- Whether there is a heartbeat. -/
  heartbeat : Bool
  /-- What other workers call a breaker with, before a call in an attempt. -/
  others : ℕ → DualCall → DualStore → List CircuitBreaker.Call
  /-- The time since the last call of the breaker. -/
  wait : ℕ → DualCall → DualStore → ℕ
  /-- What comes of acquiring a permit in each attempt. -/
  permits : ℕ → Except String Unit
  /-- What comes of each call of the projection. -/
  outcomes : ℕ → BatchSteps
  /-- The random numbers of the sleeps, and of the probe intervals. -/
  rand : ℕ → ℕ
  randProbe : ℕ → DualStore → ℕ
  /-- How a duration is printed. -/
  debugDuration : ℕ → String

/-- The two breakers. -/
abbrev Breakers : Type := DualStore → SharedBreaker

/-- Whether both breakers let a dual write through. -/
inductive CircuitCheckOutcome where
  | proceed
  | retrying
  | exhausted (msg : String)
  deriving DecidableEq, Repr

/-- What an attempt comes to. -/
inductive AttemptOutcome where
  | success
  | retry
  | fail (e : ProjectionError)
  deriving DecidableEq, Repr

namespace CoreEntitiesWorker

variable (ctx : DualContext) (attempt : ℕ)

/-- A refusal as it is shown. -/
def display (circuit : CircuitOpen) : String :=
  "circuit '" ++ circuit.name ++ "' is open (opened " ++ ctx.debugDuration circuit.openedDuration
    ++ " ago, next probe in " ++ ctx.debugDuration circuit.nextProbeIn ++ ")"

/-- A beat after a sleep. -/
def beat : List DualEvent := if ctx.heartbeat then [.beat] else []

/-- The breaker of a database, as a call in an attempt finds it. -/
def found (call : DualCall) (b : Breakers) (store : DualStore) : SharedBreaker :=
  (b store).steps (ctx.cb store) (ctx.others attempt call store)

/-- Call the breaker of a database. -/
def callBreaker (call : DualCall) (op : CircuitBreaker.Op) (b : Breakers) (store : DualStore) :
    Breakers :=
  Function.update b store
    ((found ctx attempt call b store).step (ctx.cb store) ⟨ctx.wait attempt call store, op⟩)

def answer (b : Breakers) (store : DualStore) : Except CircuitOpen Unit :=
  (found ctx attempt .check b store).answer (ctx.cb store) (ctx.wait attempt .check store)

/-- Check the breaker of a database. -/
def check (b : Breakers) (store : DualStore) : DualEvent × Breakers :=
  let b' := callBreaker ctx attempt .check .check b store
  (.check store (found ctx attempt .check b store).state (answer ctx attempt b store)
    (b' store).state, b')

/-- The refusal of a check. -/
def refusal? : Except CircuitOpen Unit → Option CircuitOpen
  | .error circuit => some circuit
  | .ok () => none

/-- Check both breakers, and wait for the longer probe interval if one is open. -/
def checkCircuitBreakers (b : Breakers) : List DualEvent × Breakers × CircuitCheckOutcome :=
  let (surrealCheck, b₁) := check ctx attempt b .surreal
  let (pgCheck, b₂) := check ctx attempt b₁ .pg
  let checks := [surrealCheck, pgCheck]
  match refusal? (answer ctx attempt b .surreal), refusal? (answer ctx attempt b₁ .pg) with
  | none, none => (checks, b₂, .proceed)
  | surrealOpen, pgOpen =>
    if attempt < ctx.policy.maxRetries then
      let opens := surrealOpen.toList ++ pgOpen.toList
      let wait := (opens.map CircuitOpen.nextProbeIn).max?.getD 5_000_000_000
      (checks ++ .sleep wait :: beat ctx, b₂, .retrying)
    else
      (checks, b₂, .exhausted (((surrealOpen.or pgOpen).map (display ctx)).getD ""))

def recordDualSuccess (b : Breakers) : List DualEvent × Breakers :=
  let b₁ := callBreaker ctx attempt .record .recordSuccess b .surreal
  ([.recordSuccess .surreal, .recordSuccess .pg],
    callBreaker ctx attempt .record .recordSuccess b₁ .pg)

/-- Record a failure on the breaker of a database. -/
def penalise (store : DualStore) (b : Breakers) : List DualEvent × Breakers :=
  ([.recordFailure store],
    callBreaker ctx attempt .record (.recordFailure (ctx.randProbe attempt store)) b store)

def penaliseBothCircuits (b : Breakers) : List DualEvent × Breakers :=
  let (surreal, b₁) := penalise ctx attempt .surreal b
  let (pg, b₂) := penalise ctx attempt .pg b₁
  (surreal ++ pg, b₂)

/-- Record a failure on the breaker of the database it came from. -/
def recordDualFailure (e : ProjectionError) (b : Breakers) : List DualEvent × Breakers :=
  match e with
  | .surreal _ | .sink _ => penalise ctx attempt .surreal b
  | .database _ => penalise ctx attempt .pg b
  | .circuitOpen _ => penaliseBothCircuits ctx attempt b
  | .invalidEventData _ | .missingField _ | .serialization _ | .config _
  | .uniqueConstraintViolation _ => penaliseBothCircuits ctx attempt b

/-- Record what came of a call, and sleep if it may be tried again. -/
def classifyAndRoute (result : Except ProjectionError Unit) (delaySecs : ℕ) (b : Breakers) :
    List DualEvent × Breakers × AttemptOutcome :=
  match result with
  | .ok () =>
    let (records, b') := recordDualSuccess ctx attempt b
    (records, b', .success)
  | .error e =>
    match e.classify with
    | .transient | .circuitProtected =>
      let (records, b') := recordDualFailure ctx attempt e b
      if ctx.policy.maxRetries ≤ attempt then (records, b', .fail e)
      else
        let sleepMs := computeJitterMs delaySecs (ctx.rand attempt)
        (records ++ .sleep (sleepMs * 1_000_000) :: beat ctx, b', .retry)
    | .fatal => ([], b, .fail e)

/-- One attempt, after some calls of the projection: what is done, the breakers it leaves,
and what the loop returns with, if it does. -/
def attemptOnce (called delaySecs : ℕ) (b : Breakers) :
    List DualEvent × Breakers × Option (Except ProjectionError Unit) :=
  let (checks, b₁, outcome) := checkCircuitBreakers ctx attempt b
  match outcome with
  | .retrying => (checks, b₁, none)
  | .exhausted msg => (checks, b₁, some (.error (.circuitOpen msg)))
  | .proceed =>
    match ctx.permits attempt with
    | .error e =>
      if ctx.policy.maxRetries ≤ attempt then
        (checks ++ [.permit (.error e)], b₁, some (.error (.sink e)))
      else
        let sleepMs := computeJitterMs delaySecs (ctx.rand attempt)
        (checks ++ .permit (.error e) :: .sleep (sleepMs * 1_000_000) :: beat ctx, b₁, none)
    | .ok () =>
      let steps := ctx.outcomes called
      let (routed, b₂, outcome) :=
        classifyAndRoute ctx attempt steps.processParsedBatch delaySecs b₁
      let events := checks ++ .permit (.ok ()) :: .call steps :: routed
      match outcome with
      | .success => (events, b₂, some (.ok ()))
      | .retry => (events, b₂, none)
      | .fail e => (events, b₂, some (.error e))

end CoreEntitiesWorker

namespace Dual

/-- The calls of the projection. -/
def calls (events : List DualEvent) : List BatchSteps :=
  events.filterMap fun
    | .call steps => some steps
    | _ => none

/-- The calls of the projection and the records, in their order. -/
def callsAndRecords (events : List DualEvent) : List DualEvent :=
  events.filter fun
    | .call _ | .recordSuccess _ | .recordFailure _ => true
    | _ => false

end Dual

/-- An attempt of a run: the calls of the projection before it, the breakers as it begins,
and what is done in it. -/
structure DualAttempt where
  number : ℕ
  called : ℕ
  breakers : Breakers
  events : List DualEvent

namespace CoreEntitiesWorker

variable (ctx : DualContext)

/-- The attempts that remain, and what the loop returns. -/
def attempts : ℕ → ℕ → ℕ → ℕ → Breakers → List DualAttempt × Except ProjectionError Unit
  | 0, _, _, _, _ =>
    ([], .error (.sink "core_entities: max_retries is zero; cannot attempt batch"))
  | remaining + 1, attempt, called, delaySecs, b =>
    let (events, b', result) := attemptOnce ctx attempt called delaySecs b
    match result with
    | some result => ([⟨attempt, called, b, events⟩], result)
    | none =>
      let rest := attempts remaining (attempt + 1) (called + (Dual.calls events).length)
        (min (delaySecs * 2 % 2 ^ 64) ctx.policy.maxBackoffSecs) b'
      (⟨attempt, called, b, events⟩ :: rest.1, rest.2)

/-- Write a batch to both databases, up to a number of attempts. -/
def processWithRetry (b : Breakers) : List DualAttempt × Except ProjectionError Unit :=
  attempts ctx ctx.policy.maxRetries 1 0 ctx.policy.baseBackoffSecs b

end CoreEntitiesWorker

/-! ## The protocol -/

/-- The database a failure is recorded for, if it is. -/
def BatchFailure.store : BatchFailure → Option DualStore
  | fatal => none
  | surreal => some .surreal
  | term | kg => some .pg

namespace Dual

/-- What a call is recorded as: a success on both breakers, or a failure on that of the
database it came from. -/
def recordsOf : Option BatchFailure → List DualEvent
  | none => [.recordSuccess .surreal, .recordSuccess .pg]
  | some failure => failure.store.toList.map .recordFailure

end Dual

/-- **The protocol of the loop**, of the attempts that were made and what was returned. -/
structure DualProtocol (maxRetries : ℕ) (attempts : List DualAttempt)
    (result : Except ProjectionError Unit) : Prop where
  /-- The projection is called at most so often. -/
  calls_length : (attempts.flatMap fun a => Dual.calls a.events).length ≤ maxRetries
  /-- It is called after both breakers of the attempt let it through. -/
  checked : ∀ a ∈ attempts, ∀ before steps after, a.events = before ++ .call steps :: after →
    ∀ store, ∃ found left, .check store found (.ok ()) left ∈ before
  /-- The result is a success exactly if the last call was one. -/
  ok_iff : result = .ok () ↔
    ∃ steps, (attempts.flatMap fun a => Dual.calls a.events).getLast? = some steps
      ∧ steps.processParsedBatch = .ok ()
  /-- Each call is followed by its records, and there are no others. -/
  recorded : ∀ a ∈ attempts, Dual.callsAndRecords a.events
    = (Dual.calls a.events).flatMap fun steps => .call steps :: Dual.recordsOf steps.failure

/-- Every attempt that takes a breaker from open to half-open records on it. -/
def ProbesRecorded (attempts : List DualAttempt) : Prop :=
  ∀ a ∈ attempts, ∀ store answer, .check store .opened answer .halfOpen ∈ a.events →
    .recordSuccess store ∈ a.events ∨ .recordFailure store ∈ a.events

namespace CoreEntitiesWorker

variable (ctx : DualContext)

/-- Both breakers let a dual write through, as an attempt finds them. -/
def Admitted (attempt : ℕ) (b : Breakers) : Prop :=
  (found ctx attempt .check b .surreal).Admits (ctx.wait attempt .check .surreal)
    ∧ (found ctx attempt .check b .pg).Admits (ctx.wait attempt .check .pg)

instance (attempt : ℕ) (b : Breakers) : Decidable (Admitted ctx attempt b) := by
  unfold Admitted
  infer_instance

/-- **An attempt judges the probes it takes on.** Where it finds a probe due, both breakers
let the write through, there is a permit, and the write succeeds or fails for the database
whose probe it is. -/
def JudgesProbes (a : DualAttempt) : Prop :=
  ∀ store, (found ctx a.number .check a.breakers store).ProbeDue
      (ctx.wait a.number .check store) →
    Admitted ctx a.number a.breakers ∧ ctx.permits a.number = .ok ()
      ∧ ∀ failure ∈ (ctx.outcomes a.called).failure, failure.store = some store

end CoreEntitiesWorker
