import IntuitionCore.Resilience.CircuitBreaker
import IntuitionCore.Surreal.DeadLetters

/-!
# Retrying an operation

The workers share one loop around their operations. Each attempt asks the circuit breaker
first. If it lets the operation through, the operation is called, and what came of it is
recorded: a success ends the loop, an error that may pass is tried again after a while, and
any other error ends the loop and is not recorded. If the breaker is open, the attempt is
spent on waiting for it.

The breaker is shared with other workers, so what it answers is arbitrary here, and so is
what comes of the operation. Metrics and logs are left out.
-/

/-- The configuration of the loop. -/
structure RetryPolicy where
  maxRetries : ℕ
  baseBackoffSecs : ℕ
  maxBackoffSecs : ℕ
  deriving DecidableEq, Repr

namespace RetryPolicy

/-- The policy of the workers that are driven by events. -/
def eventDriven : RetryPolicy := ⟨8, 1, 30⟩

/-- The policy of the workers that are driven by a timer. -/
def batch : RetryPolicy := ⟨5, 2, 30⟩

end RetryPolicy

/-- A sleep in milliseconds: the delay, and 50 to 100 % of it. The arithmetic wraps. -/
def computeJitterMs (delaySecs rand : ℕ) : ℕ :=
  let half := delaySecs * 500 % 2 ^ 64
  let jitter := half + rand % ((half + 1) % 2 ^ 64)
  (delaySecs * 1000 + jitter) % 2 ^ 64

/-- What a loop does, as seen by the breaker, the operation and the watchdog. -/
inductive RetryEvent where
  | check (answer : Except CircuitOpen Unit)
  | call (result : Except ProjectionError Unit)
  | recordSuccess
  | recordFailure
  /-- In nanoseconds. -/
  | sleep (duration : ℕ)
  | beat

/-- What a loop is given, and what it meets. -/
structure RetryContext where
  /-- Whether there is a heartbeat. -/
  heartbeat : Bool
  /-- What the breaker answers to each check. -/
  answers : ℕ → Except CircuitOpen Unit
  /-- What comes of each call of the operation. -/
  outcomes : ℕ → Except ProjectionError Unit
  /-- The random numbers. -/
  rand : ℕ → ℕ
  /-- How a duration is printed. -/
  debugDuration : ℕ → String

namespace RetryContext

/-- A refusal as it is shown. -/
def display (ctx : RetryContext) (circuit : CircuitOpen) : String :=
  "circuit '" ++ circuit.name ++ "' is open (opened " ++ ctx.debugDuration circuit.openedDuration
    ++ " ago, next probe in " ++ ctx.debugDuration circuit.nextProbeIn ++ ")"

/-- A beat after a sleep. -/
def beat (ctx : RetryContext) : List RetryEvent := if ctx.heartbeat then [.beat] else []

end RetryContext

namespace Retry

/-- The calls of the operation, each by what came of it. -/
def calls (events : List RetryEvent) : List (Except ProjectionError Unit) :=
  events.filterMap fun
    | .call result => some result
    | _ => none

/-- The calls of the operation and the records, in their order. -/
def callsAndRecords (events : List RetryEvent) : List RetryEvent :=
  events.filter fun
    | .call _ | .recordSuccess | .recordFailure => true
    | _ => false

/-- What a call is recorded as: nothing, if its error is fatal. -/
def recordOf : Except ProjectionError Unit → List RetryEvent
  | .ok () => [.recordSuccess]
  | .error e => if e.classify = .fatal then [] else [.recordFailure]

variable (policy : RetryPolicy) (ctx : RetryContext)

/-- One attempt: what is done, and what the loop returns with, if it does. -/
def attemptOnce (attempt called delaySecs : ℕ) :
    List RetryEvent × Option (Except ProjectionError Unit) :=
  match ctx.answers attempt with
  | .error circuit =>
    if attempt < policy.maxRetries then
      ([.check (.error circuit), .sleep circuit.nextProbeIn] ++ ctx.beat, none)
    else ([.check (.error circuit)], some (.error (.circuitOpen (ctx.display circuit))))
  | .ok () =>
    match ctx.outcomes called with
    | .ok () => ([.check (.ok ()), .call (.ok ()), .recordSuccess], some (.ok ()))
    | .error e =>
      match e.classify with
      | .transient | .circuitProtected =>
        if attempt < policy.maxRetries then
          let sleepMs := computeJitterMs delaySecs (ctx.rand attempt)
          ([.check (.ok ()), .call (.error e), .recordFailure, .sleep (sleepMs * 1_000_000)]
            ++ ctx.beat, none)
        else ([.check (.ok ()), .call (.error e), .recordFailure], some (.error e))
      | .fatal => ([.check (.ok ()), .call (.error e)], some (.error e))

/-- The attempts that remain. There is no result where the code runs past the loop, and
panics. -/
def attempts : ℕ → ℕ → ℕ → ℕ → List RetryEvent × Option (Except ProjectionError Unit)
  | 0, _, _, _ => ([], none)
  | remaining + 1, attempt, called, delaySecs =>
    match attemptOnce policy ctx attempt called delaySecs with
    | (events, some result) => (events, some result)
    | (events, none) =>
      let rest := attempts remaining (attempt + 1) (called + (calls events).length)
        (min (delaySecs * 2 % 2 ^ 64) policy.maxBackoffSecs)
      (events ++ rest.1, rest.2)

end Retry

/-- Call an operation until it succeeds, up to a number of attempts. -/
def retryWithBackoff (policy : RetryPolicy) (ctx : RetryContext) :
    List RetryEvent × Option (Except ProjectionError Unit) :=
  Retry.attempts policy ctx policy.maxRetries 1 0 policy.baseBackoffSecs

/-- The random part of a sleep is taken modulo a number that is not zero. -/
theorem jitter_modulus_ne_zero (delaySecs : ℕ) : (delaySecs * 500 % 2 ^ 64 + 1) % 2 ^ 64 ≠ 0 := by
  omega

/-! ## The protocol -/

/-- **The protocol of the loop**, of what was done and what was returned. -/
structure RetryProtocol (maxRetries : ℕ) (events : List RetryEvent)
    (result : Option (Except ProjectionError Unit)) : Prop where
  /-- The operation is called at most so often. -/
  calls_length : (Retry.calls events).length ≤ maxRetries
  /-- The code after the loop is not reached. -/
  returns : result.isSome
  /-- The result is a success exactly if the last call was one. -/
  ok_iff : result = some (.ok ()) ↔ (Retry.calls events).getLast? = some (.ok ())
  /-- A fatal error ends the loop, and is returned. -/
  fatal : ∀ e : ProjectionError, e.classify = .fatal →
    ∀ before after, Retry.calls events = before ++ .error e :: after →
      after = [] ∧ result = some (.error e)
  /-- Each call is followed by its record, and there are no others. -/
  recorded : Retry.callsAndRecords events
    = (Retry.calls events).flatMap fun outcome => .call outcome :: Retry.recordOf outcome

namespace Retry

variable {policy : RetryPolicy} {ctx : RetryContext} {attempt called delaySecs : ℕ}

@[simp] theorem calls_append (xs ys : List RetryEvent) :
    calls (xs ++ ys) = calls xs ++ calls ys := List.filterMap_append

@[simp] theorem callsAndRecords_append (xs ys : List RetryEvent) :
    callsAndRecords (xs ++ ys) = callsAndRecords xs ++ callsAndRecords ys := List.filter_append ..

@[simp] theorem calls_beat : calls ctx.beat = [] := by
  unfold RetryContext.beat
  split <;> rfl

@[simp] theorem callsAndRecords_beat : callsAndRecords ctx.beat = [] := by
  unfold RetryContext.beat
  split <;> rfl

/-- After a failure that is not fatal the loop goes on, if attempts remain. -/
theorem attemptOnce_of_failure {e : ProjectionError} (hanswer : ctx.answers attempt = .ok ())
    (houtcome : ctx.outcomes called = .error e) (hfatal : e.classify ≠ .fatal) :
    attemptOnce policy ctx attempt called delaySecs
      = if attempt < policy.maxRetries then
          ([.check (.ok ()), .call (.error e), .recordFailure,
            .sleep (computeJitterMs delaySecs (ctx.rand attempt) * 1_000_000)] ++ ctx.beat, none)
        else ([.check (.ok ()), .call (.error e), .recordFailure], some (.error e)) := by
  unfold attemptOnce
  rw [hanswer]
  dsimp only
  rw [houtcome]
  dsimp only
  cases hclass : e.classify with
  | fatal => exact absurd hclass hfatal
  | transient => rfl
  | circuitProtected => rfl

/-- **What an attempt does.** It calls the operation at most once, and records what came
of it unless that is a fatal error. It goes on only if attempts remain, and not after a
success or a fatal error; otherwise the loop returns what came of the call. -/
theorem attemptOnce_cases {events : List RetryEvent} {answer : Option (Except ProjectionError Unit)}
    (h : attemptOnce policy ctx attempt called delaySecs = (events, answer)) :
    ∃ outcome : Option (Except ProjectionError Unit),
      calls events = outcome.toList
      ∧ callsAndRecords events = outcome.toList.flatMap (fun o => .call o :: recordOf o)
      ∧ ((answer = none ∧ attempt < policy.maxRetries
          ∧ ∀ o ∈ outcome, ∃ e : ProjectionError, o = .error e ∧ e.classify ≠ .fatal)
        ∨ ∃ result, answer = some result
          ∧ (outcome = none → ∃ e, result = .error e) ∧ ∀ o ∈ outcome, result = o) := by
  cases hanswer : ctx.answers attempt with
  | error circuit =>
    -- the breaker refuses, and nothing is called
    unfold attemptOnce at h
    rw [hanswer] at h
    dsimp only at h
    refine ⟨none, ?_⟩
    split at h
    case isTrue hagain =>
      cases h
      rw [calls_append, callsAndRecords_append, calls_beat, callsAndRecords_beat]
      exact ⟨rfl, rfl, .inl ⟨rfl, hagain, nofun⟩⟩
    case isFalse =>
      cases h
      exact ⟨rfl, rfl, .inr ⟨_, rfl, fun _ => ⟨_, rfl⟩, nofun⟩⟩
  | ok =>
    refine ⟨some (ctx.outcomes called), ?_⟩
    cases houtcome : ctx.outcomes called with
    | ok =>
      unfold attemptOnce at h
      rw [hanswer, houtcome] at h
      cases h
      exact ⟨rfl, rfl, .inr ⟨_, rfl, nofun, fun o ho => Option.some.inj ho⟩⟩
    | error e =>
      by_cases hfatal : e.classify = .fatal
      · unfold attemptOnce at h
        rw [hanswer, houtcome] at h
        dsimp only at h
        rw [hfatal] at h
        cases h
        have hrecord : recordOf (.error e) = [] := if_pos hfatal
        exact ⟨rfl, by rw [Option.toList_some, List.flatMap_singleton, hrecord]; rfl,
          .inr ⟨_, rfl, nofun, fun o ho => Option.some.inj ho⟩⟩
      · have hrecord : recordOf (.error e) = [.recordFailure] := if_neg hfatal
        rw [attemptOnce_of_failure hanswer houtcome hfatal] at h
        rw [Option.toList_some, List.flatMap_singleton, hrecord]
        split at h
        case isTrue hless =>
          cases h
          rw [calls_append, callsAndRecords_append, calls_beat, callsAndRecords_beat]
          exact ⟨rfl, rfl, .inl ⟨rfl, hless, fun o ho => ⟨e, (Option.some.inj ho).symm, hfatal⟩⟩⟩
        case isFalse =>
          cases h
          exact ⟨rfl, rfl, .inr ⟨_, rfl, nofun, fun o ho => Option.some.inj ho⟩⟩

/-- An attempt that returns keeps the protocol. -/
theorem protocol_of_returns {events : List RetryEvent}
    {outcome : Option (Except ProjectionError Unit)} {result : Except ProjectionError Unit} {n : ℕ}
    (hcalls : calls events = outcome.toList)
    (hrecorded : callsAndRecords events = outcome.toList.flatMap fun o => .call o :: recordOf o)
    (hnone : outcome = none → ∃ e, result = .error e) (hsome : ∀ o ∈ outcome, result = o) :
    RetryProtocol (n + 1) events (some result) := by
  refine ⟨?_, rfl, ?_, ?_, by rw [hcalls, hrecorded]⟩
  · rw [hcalls]
    cases outcome <;> simp
  · rw [hcalls]
    cases outcome with
    | none =>
      obtain ⟨e, rfl⟩ := hnone rfl
      simp
    | some o => simp [hsome o rfl]
  · intro e he before after hsplit
    rw [hcalls] at hsplit
    cases outcome with
    | none => simp at hsplit
    | some o =>
      obtain ⟨-, hcons⟩ | ⟨-, hcons⟩ := List.singleton_eq_append_iff.mp hsplit
      · obtain ⟨rfl, rfl⟩ := List.cons.inj hcons
        exact ⟨rfl, congrArg some (hsome _ rfl)⟩
      · cases hcons

/-- An attempt after which the loop goes on keeps the protocol of the rest. -/
theorem protocol_of_continues {events more : List RetryEvent}
    {outcome : Option (Except ProjectionError Unit)}
    {result : Option (Except ProjectionError Unit)} {n : ℕ}
    (hcalls : calls events = outcome.toList)
    (hrecorded : callsAndRecords events = outcome.toList.flatMap fun o => .call o :: recordOf o)
    (hpasses : ∀ o ∈ outcome, ∃ e : ProjectionError, o = .error e ∧ e.classify ≠ .fatal)
    (hrest : RetryProtocol n more result) : RetryProtocol (n + 1) (events ++ more) result := by
  have hall : calls (events ++ more) = outcome.toList ++ calls more := by
    rw [calls_append, hcalls]
  refine ⟨?_, hrest.returns, ?_, ?_, ?_⟩
  · have hlength := hrest.calls_length
    rw [hall]
    cases outcome <;> simp <;> omega
  · rw [hrest.ok_iff, hall, List.getLast?_append]
    cases hlast : (calls more).getLast? with
    | some last => rfl
    | none =>
      -- what came of this attempt is no success
      cases outcome with
      | none => rfl
      | some o =>
        obtain ⟨e, rfl, -⟩ := hpasses o rfl
        simp
  · intro e he before after hsplit
    rw [hall] at hsplit
    cases outcome with
    | none => exact hrest.fatal e he before after hsplit
    | some o =>
      obtain ⟨-, hcons⟩ | ⟨before', -, hmore⟩ := List.cons_eq_append_iff.mp hsplit
      · obtain ⟨e', rfl, he'⟩ := hpasses o rfl
        obtain ⟨heq, -⟩ := List.cons.inj hcons
        cases heq
        exact absurd he he'
      · exact hrest.fatal e he before' after hmore
  · rw [hall, callsAndRecords_append, hrecorded, hrest.recorded, List.flatMap_append]

/-- **The attempts that remain keep the protocol**: the last of them returns. -/
theorem protocol_attempts {remaining : ℕ} (h : attempt + remaining = policy.maxRetries) :
    RetryProtocol (remaining + 1)
      (attempts policy ctx (remaining + 1) attempt called delaySecs).1
      (attempts policy ctx (remaining + 1) attempt called delaySecs).2 := by
  induction remaining generalizing attempt called delaySecs with
  | zero =>
    rw [attempts]
    cases hattempt : attemptOnce policy ctx attempt called delaySecs with
    | mk events answer =>
      obtain ⟨outcome, hcalls, hrecorded, ⟨-, hless, -⟩ | ⟨result, rfl, hnone, hsome⟩⟩ :=
        attemptOnce_cases hattempt
      · exact absurd hless (by omega)
      · exact protocol_of_returns hcalls hrecorded hnone hsome
  | succ remaining ih =>
    rw [attempts]
    cases hattempt : attemptOnce policy ctx attempt called delaySecs with
    | mk events answer =>
      obtain ⟨outcome, hcalls, hrecorded, ⟨rfl, -, hpasses⟩ | ⟨result, rfl, hnone, hsome⟩⟩ :=
        attemptOnce_cases hattempt
      · exact protocol_of_continues hcalls hrecorded hpasses (ih (by omega))
      · exact protocol_of_returns hcalls hrecorded hnone hsome

end Retry

/-- **The loop keeps the protocol**, whatever the breaker answers and whatever comes of the
operation. -/
theorem retry_keeps_protocol (policy : RetryPolicy) (ctx : RetryContext)
    (h : 1 ≤ policy.maxRetries) :
    RetryProtocol policy.maxRetries (retryWithBackoff policy ctx).1
      (retryWithBackoff policy ctx).2 := by
  obtain ⟨remaining, hremaining⟩ := Nat.exists_eq_add_of_le h
  have hprotocol : RetryProtocol (remaining + 1)
      (Retry.attempts policy ctx (remaining + 1) 1 0 policy.baseBackoffSecs).1
      (Retry.attempts policy ctx (remaining + 1) 1 0 policy.baseBackoffSecs).2 :=
    Retry.protocol_attempts hremaining.symm
  unfold retryWithBackoff
  rwa [hremaining, Nat.add_comm 1 remaining]

/-- A breaker that is open at first, and an operation that fails once. -/
def openAtFirst : RetryContext where
  heartbeat := true
  answers attempt := if attempt = 1 then .error ⟨"surreal", 0, 5_000_000_000⟩ else .ok ()
  outcomes called := if called = 0 then .error (.sink "timeout") else .ok ()
  rand _ := 0
  debugDuration _ := "5s"

theorem retry_keeps_protocol_openAtFirst :
    RetryProtocol RetryPolicy.batch.maxRetries (retryWithBackoff .batch openAtFirst).1
      (retryWithBackoff .batch openAtFirst).2 :=
  retry_keeps_protocol .batch openAtFirst (by decide)
