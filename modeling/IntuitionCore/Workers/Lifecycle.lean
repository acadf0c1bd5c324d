import IntuitionCore.Library.Run
import Mathlib.Algebra.Order.Ring.Int

/-!
# The lifecycle of a worker process

A worker process has a small server, which tells whether the worker is ready, and a
lifecycle, which ends it. Anyone may ask for the shutdown: the worker itself, its watchdog,
a signal, an error that nobody caught. The first request stops the server and aborts the
signal that the worker listens to; the later ones only add what they know, a reason or an
exit code. Whoever completes the shutdown waits until the server has stopped, and exits.

The supervisor of the worker says when the worker is ready. It says so on its own, after it
has connected to the database, and nothing asks it whether a shutdown was requested in the
meantime.
-/

namespace Workers

inductive ShutdownReason where
  | sigint
  | sigterm
  | manual
  | workerCompleted
  | watchdog
  | workerError
  | uncaughtException
  | unhandledRejection
  deriving DecidableEq, Repr

/-- A request to shut down. -/
structure ShutdownRequest where
  reason : ShutdownReason
  exitCode : Option ℤ := none
  forceExit : Bool := false
  deriving DecidableEq, Repr

/-- What the reason of a stop may be. -/
inductive LifecycleStopReason where
  | manual
  | workerCompleted
  deriving DecidableEq, Repr

def LifecycleStopReason.toShutdownReason : LifecycleStopReason → ShutdownReason
  | manual => .manual
  | workerCompleted => .workerCompleted

/-- The events of the process that the lifecycle handles. -/
inductive ProcessEvent where
  | sigint
  | sigterm
  | uncaughtException
  | unhandledRejection
  deriving DecidableEq, Repr

/-- What a handler requests. -/
def ProcessEvent.request : ProcessEvent → ShutdownRequest
  | sigint => { reason := .sigint, exitCode := some 0, forceExit := true }
  | sigterm => { reason := .sigterm, exitCode := some 0, forceExit := true }
  | uncaughtException => { reason := .uncaughtException, exitCode := some 1, forceExit := true }
  | unhandledRejection => { reason := .unhandledRejection, exitCode := some 1, forceExit := true }

/-- The promise of a shutdown: the server is being stopped, has stopped, or has failed to. -/
inductive ShutdownPromise where
  | pending
  | resolved
  | rejected
  deriving DecidableEq, Repr

/-- The answer of the readiness endpoint. -/
structure ReadyzResponse where
  ok : Bool
  service : String
  status : String
  httpStatus : ℕ
  deriving DecidableEq, Repr

/-- The variables of a lifecycle, and those of the server and the timers it uses. -/
structure WorkerLifecycle where
  ready : Bool := false
  shutdownPromise : Option ShutdownPromise := none
  /-- The timer that forces the exit, by its number. -/
  fallbackTimer : Option ℕ := none
  shouldExitOnComplete : Bool := false
  requestedExitCode : ℤ := 0
  shutdownReasons : List ShutdownReason := []
  /-- The abort signal. -/
  aborted : Bool := false
  /-- How often the server was told to stop. -/
  serverStops : ℕ := 0
  /-- How many timers were set. -/
  timers : ℕ := 0
  deriving DecidableEq, Repr

namespace WorkerLifecycle

variable (l : WorkerLifecycle)

def readyz (service : String) : ReadyzResponse where
  ok := l.ready
  service
  status := if l.ready = true then "ready" else "starting"
  httpStatus := if l.ready = true then 200 else 503

def isShuttingDown : Bool := l.shutdownPromise.isSome

def clearFallback : WorkerLifecycle := { l with fallbackTimer := none }

def installFallback : WorkerLifecycle :=
  if l.fallbackTimer.isSome = true then l
  else { l with fallbackTimer := some l.timers, timers := l.timers + 1 }

/-- The exit code after a request: it is never lowered. -/
def raisedExitCode (request : ShutdownRequest) : ℤ :=
  match request.exitCode with
  | some exitCode => if l.requestedExitCode < exitCode then exitCode else l.requestedExitCode
  | none => l.requestedExitCode

/-- What every request adds. -/
def noteRequest (request : ShutdownRequest) : WorkerLifecycle :=
  { l with
    shutdownReasons :=
      if request.reason ∈ l.shutdownReasons then l.shutdownReasons
      else l.shutdownReasons ++ [request.reason]
    requestedExitCode := l.raisedExitCode request
    shouldExitOnComplete := l.shouldExitOnComplete || request.forceExit }

/-- The first request begins the shutdown. -/
def beginShutdown : WorkerLifecycle :=
  { l with
    ready := false
    aborted := true
    serverStops := l.serverStops + 1
    shutdownPromise := some .pending }

def requestShutdown (request : ShutdownRequest) : WorkerLifecycle :=
  let noted := (l.noteRequest request).installFallback
  if noted.shutdownPromise.isSome = true then noted else noted.beginShutdown

def setReady (value : Bool) : WorkerLifecycle := { l with ready := value }

/-- The code that the completion of a shutdown exits with, if it exits. -/
def completionExit (exitCode : Option ℤ) : Option ℤ :=
  if l.shouldExitOnComplete = true then some (max (exitCode.getD 0) l.requestedExitCode) else none

/-! ## What a request does -/

section

variable {l} {request : ShutdownRequest}

theorem shutdownPromise_installFallback :
    l.installFallback.shutdownPromise = l.shutdownPromise := by
  rw [installFallback]
  split <;> rfl

/-- Installing the fallback sets a timer, and nothing else. -/
theorem installFallback_frame :
    l.installFallback.ready = l.ready ∧ l.installFallback.aborted = l.aborted ∧
      l.installFallback.serverStops = l.serverStops ∧
      l.installFallback.requestedExitCode = l.requestedExitCode := by
  rw [installFallback]
  split <;> exact ⟨rfl, rfl, rfl, rfl⟩

/-- A later request only adds what it knows. -/
theorem requestShutdown_of_isShuttingDown (h : l.isShuttingDown = true) :
    l.requestShutdown request = (l.noteRequest request).installFallback := by
  rw [requestShutdown, if_pos]
  rw [shutdownPromise_installFallback]
  exact h

/-- The first request begins the shutdown. -/
theorem requestShutdown_of_not_isShuttingDown (h : ¬ l.isShuttingDown = true) :
    l.requestShutdown request = (l.noteRequest request).installFallback.beginShutdown := by
  rw [requestShutdown, if_neg]
  rw [shutdownPromise_installFallback]
  exact h

/-- A lifecycle is shutting down after a request. -/
theorem isShuttingDown_requestShutdown : (l.requestShutdown request).isShuttingDown = true := by
  by_cases h : l.isShuttingDown = true
  · rw [requestShutdown_of_isShuttingDown h, isShuttingDown, shutdownPromise_installFallback]
    exact h
  · rw [requestShutdown_of_not_isShuttingDown h]
    rfl

theorem requestedExitCode_requestShutdown :
    (l.requestShutdown request).requestedExitCode = l.raisedExitCode request := by
  obtain ⟨-, -, -, hcode⟩ := (l.noteRequest request).installFallback_frame
  by_cases h : l.isShuttingDown = true
  · rw [requestShutdown_of_isShuttingDown h, hcode]
    rfl
  · rw [requestShutdown_of_not_isShuttingDown h]
    exact hcode

/-- The exit code is raised to the requested one, and is never lowered. -/
theorem le_raisedExitCode (l : WorkerLifecycle) (request : ShutdownRequest) :
    l.requestedExitCode ≤ l.raisedExitCode request ∧
      ∀ code ∈ request.exitCode, code ≤ l.raisedExitCode request := by
  rw [raisedExitCode]
  cases hcode : request.exitCode with
  | none => exact ⟨le_rfl, nofun⟩
  | some exitCode =>
    show l.requestedExitCode ≤ ite _ _ _ ∧ ∀ code ∈ some exitCode, code ≤ ite _ _ _
    split
    · refine ⟨by omega, fun code hmem => ?_⟩
      obtain rfl := Option.mem_some_iff.mp hmem
      exact le_rfl
    · refine ⟨le_rfl, fun code hmem => ?_⟩
      obtain rfl := Option.mem_some_iff.mp hmem
      omega

end

end WorkerLifecycle

/-! ## Runs -/

/-- A call that waits until the server has stopped. -/
inductive WaitingCall where
  | completeShutdown (exitCode : Option ℤ)
  | stop
  deriving DecidableEq, Repr

/-- An exit of the process. -/
structure ProcessExit where
  code : ℤ
  /-- It was made by the completion of the shutdown, and not by the fallback. -/
  byCompletion : Bool
  /-- The requests made before. -/
  requests : List ShutdownRequest
  deriving DecidableEq, Repr

/-- A lifecycle that is in use. The requests and the exits are what has happened so far; no
code reads them. -/
structure LifecycleRun where
  lifecycle : WorkerLifecycle := {}
  /-- The handlers of the process are installed. -/
  handlers : Bool := true
  waiting : List WaitingCall := []
  requests : List ShutdownRequest := []
  exits : List ProcessExit := []
  deriving DecidableEq, Repr

namespace LifecycleRun

/-- What happens to a lifecycle: a call of one of its functions, an event of the process,
or something it waits for. -/
inductive Action where
  | requestShutdown (request : ShutdownRequest)
  | event (event : ProcessEvent)
  | completeShutdown (exitCode : Option ℤ)
  | stop (reason : LifecycleStopReason)
  | setReady (value : Bool)
  | dispose
  /-- The server has stopped, or has failed to. -/
  | serverStopped
  | serverFailed
  /-- A call that waits goes on, now that the promise has settled. -/
  | resume (call : ℕ)
  /-- A timer fires. -/
  | fire (timer : ℕ)
  deriving DecidableEq, Repr

/-- A request is made. -/
def request (s : LifecycleRun) (request : ShutdownRequest) : LifecycleRun :=
  { s with
    lifecycle := s.lifecycle.requestShutdown request
    requests := s.requests ++ [request] }

/-- A call begins to wait. -/
def await (s : LifecycleRun) (call : WaitingCall) : LifecycleRun :=
  { s with waiting := s.waiting ++ [call] }

/-- The process exits; a process that only pretends to, as in the tests, goes on. -/
def exit (s : LifecycleRun) (code : ℤ) (byCompletion : Bool) : LifecycleRun :=
  { s with exits := s.exits ++ [⟨code, byCompletion, s.requests⟩] }

def clearFallback (s : LifecycleRun) : LifecycleRun :=
  { s with lifecycle := s.lifecycle.clearFallback }

/-- The end of a completion, once there is nothing to wait for. -/
def complete (s : LifecycleRun) (exitCode : Option ℤ) : LifecycleRun :=
  match s.lifecycle.completionExit exitCode with
  | some code => s.clearFallback.exit code true
  | none => s.clearFallback

/-- What a call does after its wait. -/
def goOn (s : LifecycleRun) : WaitingCall → LifecycleRun
  | .completeShutdown exitCode => s.complete exitCode
  | .stop => s.clearFallback

def settle (s : LifecycleRun) (promise : ShutdownPromise) : Option LifecycleRun :=
  if s.lifecycle.shutdownPromise = some .pending then
    some { s with lifecycle := { s.lifecycle with shutdownPromise := some promise } }
  else none

def step (s : LifecycleRun) : Action → Option LifecycleRun
  | .requestShutdown request => some (s.request request)
  | .event event => if s.handlers = true then some (s.request event.request) else none
  | .completeShutdown exitCode =>
    some (if s.lifecycle.isShuttingDown = true then s.await (.completeShutdown exitCode)
      else s.complete exitCode)
  | .stop reason =>
    some ((if s.lifecycle.isShuttingDown = true then s
      else s.request { reason := reason.toShutdownReason }).await .stop)
  | .setReady value => some { s with lifecycle := s.lifecycle.setReady value }
  | .dispose => some { s.clearFallback with handlers := false }
  | .serverStopped => s.settle .resolved
  | .serverFailed => s.settle .rejected
  | .resume call =>
    match s.lifecycle.shutdownPromise, s.waiting[call]? with
    | some .resolved, some waiting =>
      some ({ s with waiting := s.waiting.eraseIdx call }.goOn waiting)
    -- the call fails with the promise
    | some .rejected, some _ => some { s with waiting := s.waiting.eraseIdx call }
    | _, _ => none
  | .fire timer =>
    if timer < s.lifecycle.timers then
      -- a timer that was cleared or replaced does nothing
      some (if s.lifecycle.fallbackTimer = some timer then s.exit 1 false else s)
    else none

/-! ## What is to hold -/

/-- No exit code that was requested is above `bound`. -/
def CodesAtMost (requests : List ShutdownRequest) (bound : ℤ) : Prop :=
  ∀ request ∈ requests, ∀ code ∈ request.exitCode, code ≤ bound

/-- **A shutdown is monotone**, in one state: the server was stopped once at most, and once
a shutdown was requested the worker is shutting down, with the signal aborted, and not
ready; and whoever completed the shutdown exited with a code not below the requested
ones. -/
structure IsMonotone (service : String) (s : LifecycleRun) : Prop where
  serverStops_le : s.lifecycle.serverStops ≤ 1
  shuttingDown : s.requests ≠ [] → s.lifecycle.isShuttingDown = true
  aborted : s.requests ≠ [] → s.lifecycle.aborted = true
  notReady : s.requests ≠ [] →
    s.lifecycle.readyz service = ⟨false, service, "starting", 503⟩
  codes : ∀ exit ∈ s.exits, exit.byCompletion = true → CodesAtMost exit.requests exit.code

/-- Nobody says that the worker is ready after a shutdown was requested. -/
abbrev ReadiesInTime (s : LifecycleRun) (a : Action) : Prop :=
  a = .setReady true → s.requests = []

/-- What every step keeps. -/
structure IsSound (s : LifecycleRun) : Prop where
  serverStops_eq : s.lifecycle.serverStops = if s.lifecycle.isShuttingDown = true then 1 else 0
  isShuttingDown_iff : s.lifecycle.isShuttingDown = true ↔ s.requests ≠ []
  aborted_eq : s.lifecycle.aborted = s.lifecycle.isShuttingDown
  codesAtMost : CodesAtMost s.requests s.lifecycle.requestedExitCode
  exits : ∀ exit ∈ s.exits, exit.byCompletion = true → CodesAtMost exit.requests exit.code

/-! ## What a step does -/

section

variable {s s' t : LifecycleRun} {a : Action}

/-- A step that makes no request: the shutdown stays what it is, readiness is what it was
set to, and an exit of a completion has a code that is not below the requested ones. -/
structure IsQuiet (s : LifecycleRun) (a : Action) (s' : LifecycleRun) : Prop where
  requests_eq : s'.requests = s.requests
  isShuttingDown_eq : s'.lifecycle.isShuttingDown = s.lifecycle.isShuttingDown
  aborted_eq : s'.lifecycle.aborted = s.lifecycle.aborted
  serverStops_eq : s'.lifecycle.serverStops = s.lifecycle.serverStops
  exitCode_eq : s'.lifecycle.requestedExitCode = s.lifecycle.requestedExitCode
  ready_iff : s'.lifecycle.ready = true ↔
    a = .setReady true ∨ s.lifecycle.ready = true ∧ a ≠ .setReady false
  exits : ∀ exit ∈ s'.exits, exit ∈ s.exits ∨
    (exit.byCompletion = true →
      exit.requests = s.requests ∧ s.lifecycle.requestedExitCode ≤ exit.code)

/-- A step that makes a request does nothing else to the shutdown. -/
def Requests (s s' : LifecycleRun) : Prop :=
  ∃ request, s'.lifecycle = s.lifecycle.requestShutdown request ∧
    s'.requests = s.requests ++ [request] ∧ s'.exits = s.exits

/-- What only changes the calls that wait, the handlers and the timer is quiet. -/
theorem isQuiet_of_eq (ha : ∀ value, a ≠ .setReady value)
    (hrequests : s'.requests = s.requests) (hexits : s'.exits = s.exits)
    (hdown : s'.lifecycle.isShuttingDown = s.lifecycle.isShuttingDown)
    (hrest : s'.lifecycle.aborted = s.lifecycle.aborted ∧
      s'.lifecycle.serverStops = s.lifecycle.serverStops ∧
      s'.lifecycle.requestedExitCode = s.lifecycle.requestedExitCode ∧
      s'.lifecycle.ready = s.lifecycle.ready) : IsQuiet s a s' where
  requests_eq := hrequests
  isShuttingDown_eq := hdown
  aborted_eq := hrest.1
  serverStops_eq := hrest.2.1
  exitCode_eq := hrest.2.2.1
  ready_iff := by
    rw [hrest.2.2.2, or_iff_right (ha true), and_iff_left (ha false)]
  exits exit hexit := .inl (hexits ▸ hexit)

/-- Clearing the fallback is quiet. -/
theorem IsQuiet.clearFallback (h : IsQuiet s a t) : IsQuiet s a t.clearFallback :=
  ⟨h.requests_eq, h.isShuttingDown_eq, h.aborted_eq, h.serverStops_eq, h.exitCode_eq,
    h.ready_iff, h.exits⟩

/-- An exit is quiet, if it is the fallback's or its code is not below the requested
ones. -/
theorem IsQuiet.exit (h : IsQuiet s a t) {code : ℤ} {byCompletion : Bool}
    (hcode : byCompletion = true → s.lifecycle.requestedExitCode ≤ code) :
    IsQuiet s a (t.exit code byCompletion) where
  requests_eq := h.requests_eq
  isShuttingDown_eq := h.isShuttingDown_eq
  aborted_eq := h.aborted_eq
  serverStops_eq := h.serverStops_eq
  exitCode_eq := h.exitCode_eq
  ready_iff := h.ready_iff
  exits exit hexit := by
    obtain hexit | hexit := List.mem_append.mp hexit
    · exact h.exits exit hexit
    · obtain rfl := List.mem_singleton.mp hexit
      exact .inr fun hby => ⟨h.requests_eq, hcode hby⟩

/-- A completion is quiet: it exits with a code that is not below the requested ones, if it
exits at all. -/
theorem IsQuiet.complete (h : IsQuiet s a t) (exitCode : Option ℤ) :
    IsQuiet s a (t.complete exitCode) := by
  rw [LifecycleRun.complete]
  cases hexit : t.lifecycle.completionExit exitCode with
  | none => exact h.clearFallback
  | some code =>
    rw [WorkerLifecycle.completionExit, Option.ite_none_right_eq_some, Option.some.injEq] at hexit
    refine h.clearFallback.exit fun _ => ?_
    rw [← hexit.2, h.exitCode_eq]
    exact le_max_right _ _

theorem IsQuiet.goOn (h : IsQuiet s a t) (call : WaitingCall) : IsQuiet s a (t.goOn call) := by
  cases call with
  | completeShutdown exitCode => exact h.complete exitCode
  | stop => exact h.clearFallback

/-- The promise settles: the shutdown has been requested as before. -/
theorem isQuiet_settle (ha : ∀ value, a ≠ .setReady value) {promise : ShutdownPromise}
    (h : s.settle promise = some s') : IsQuiet s a s' := by
  rw [settle, Option.ite_none_right_eq_some, Option.some.injEq] at h
  obtain ⟨hpending, rfl⟩ := h
  refine isQuiet_of_eq ha rfl rfl ?_ ⟨rfl, rfl, rfl, rfl⟩
  show true = s.lifecycle.shutdownPromise.isSome
  rw [hpending]
  rfl

/-- **What a step does**: it makes a request, or it is quiet. -/
theorem step_cases (h : s.step a = some s') :
    Requests s s' ∧ (∀ value, a ≠ .setReady value) ∨ IsQuiet s a s' := by
  have hsame : ∀ t : LifecycleRun, t.lifecycle = s.lifecycle → t.requests = s.requests →
      t.exits = s.exits → (∀ value, a ≠ .setReady value) → IsQuiet s a t :=
    fun t hl hr he ha => isQuiet_of_eq ha hr he (by rw [hl]) (by simp only [hl, and_self])
  cases a with
  | requestShutdown request =>
    cases h
    exact .inl ⟨⟨request, rfl, rfl, rfl⟩, fun _ h => by cases h⟩
  | event event =>
    obtain ⟨-, h⟩ := Option.ite_none_right_eq_some.mp h
    cases h
    exact .inl ⟨⟨event.request, rfl, rfl, rfl⟩, fun _ h => by cases h⟩
  | completeShutdown exitCode =>
    obtain rfl := Option.some.inj h
    refine .inr ?_
    split
    · exact hsame _ rfl rfl rfl fun _ h => by cases h
    · exact (hsame s rfl rfl rfl fun _ h => by cases h).complete exitCode
  | stop reason =>
    obtain rfl := Option.some.inj h
    split
    · exact .inr (hsame _ rfl rfl rfl fun _ h => by cases h)
    · exact .inl ⟨⟨_, rfl, rfl, rfl⟩, fun _ h => by cases h⟩
  | setReady value =>
    cases h
    refine .inr ⟨rfl, rfl, rfl, rfl, rfl, ?_, fun exit hexit => .inl hexit⟩
    cases value <;> simp [WorkerLifecycle.setReady]
  | dispose =>
    cases h
    exact .inr (isQuiet_of_eq (fun _ h => by cases h) rfl rfl rfl ⟨rfl, rfl, rfl, rfl⟩)
  | serverStopped => exact .inr (isQuiet_settle (fun _ h => by cases h) h)
  | serverFailed => exact .inr (isQuiet_settle (fun _ h => by cases h) h)
  | resume call =>
    refine .inr ?_
    rw [step] at h
    split at h
    · cases h
      exact (hsame { s with waiting := s.waiting.eraseIdx call } rfl rfl rfl
        fun _ h => by cases h).goOn _
    · cases h
      exact hsame _ rfl rfl rfl fun _ h => by cases h
    · cases h
  | fire timer =>
    obtain ⟨-, h⟩ := Option.ite_none_right_eq_some.mp h
    obtain rfl := Option.some.inj h
    refine .inr ?_
    have hquiet : IsQuiet s (.fire timer) s := hsame s rfl rfl rfl fun _ h => by cases h
    split
    · exact hquiet.exit fun h => by cases h
    · exact hquiet

/-! ## The shutdown is monotone -/

theorem CodesAtMost.mono {requests : List ShutdownRequest} {bound bound' : ℤ}
    (h : CodesAtMost requests bound) (hle : bound ≤ bound') : CodesAtMost requests bound' :=
  fun request hrequest code hcode => (h request hrequest code hcode).trans hle

/-- **What every step keeps.** -/
theorem IsSound.step (hs : IsSound s) (h : s.step a = some s') : IsSound s' := by
  obtain ⟨⟨request, hl, hr, he⟩, -⟩ | hquiet := step_cases h
  · obtain ⟨hup, hcode⟩ := s.lifecycle.le_raisedExitCode request
    have hdown : s'.lifecycle.isShuttingDown = true := by
      rw [hl]
      exact WorkerLifecycle.isShuttingDown_requestShutdown
    have hmore : s'.requests ≠ [] := by
      rw [hr]
      exact List.append_ne_nil_of_right_ne_nil _ (List.cons_ne_nil _ _)
    obtain ⟨-, haborted, hstops, -⟩ :=
      (s.lifecycle.noteRequest request).installFallback_frame
    have hstopped := hs.serverStops_eq
    refine ⟨?_, iff_of_true hdown hmore, ?_, ?_, by rw [he]; exact hs.exits⟩
    · rw [if_pos hdown, hl]
      by_cases hbefore : s.lifecycle.isShuttingDown = true
      · rw [if_pos hbefore] at hstopped
        rw [WorkerLifecycle.requestShutdown_of_isShuttingDown hbefore, hstops]
        exact hstopped
      · rw [if_neg hbefore] at hstopped
        rw [WorkerLifecycle.requestShutdown_of_not_isShuttingDown hbefore]
        show _ + 1 = 1
        rw [hstops]
        exact congrArg (· + 1) hstopped
    · rw [hdown, hl]
      by_cases hbefore : s.lifecycle.isShuttingDown = true
      · rw [WorkerLifecycle.requestShutdown_of_isShuttingDown hbefore, haborted]
        exact hs.aborted_eq.trans hbefore
      · rw [WorkerLifecycle.requestShutdown_of_not_isShuttingDown hbefore]
        rfl
    · rw [hl, hr, WorkerLifecycle.requestedExitCode_requestShutdown]
      intro r hmem
      obtain hmem | hmem := List.mem_append.mp hmem
      · exact hs.codesAtMost.mono hup r hmem
      · obtain rfl := List.mem_singleton.mp hmem
        exact hcode
  · refine ⟨?_, ?_, ?_, ?_, fun exit hexit hby => ?_⟩
    · rw [hquiet.serverStops_eq, hquiet.isShuttingDown_eq]
      exact hs.serverStops_eq
    · rw [hquiet.isShuttingDown_eq, hquiet.requests_eq]
      exact hs.isShuttingDown_iff
    · rw [hquiet.aborted_eq, hquiet.isShuttingDown_eq]
      exact hs.aborted_eq
    · rw [hquiet.requests_eq, hquiet.exitCode_eq]
      exact hs.codesAtMost
    · obtain hexit | hexit := hquiet.exits exit hexit
      · exact hs.exits exit hexit hby
      · obtain ⟨hrequests, hle⟩ := hexit hby
        rw [hrequests]
        exact hs.codesAtMost.mono hle

/-- No step ends a shutdown. -/
theorem isShuttingDown_le (h : s.step a = some s') :
    s.lifecycle.isShuttingDown ≤ s'.lifecycle.isShuttingDown := by
  obtain ⟨⟨request, hl, -, -⟩, -⟩ | hquiet := step_cases h
  · intro _
    rw [hl]
    exact WorkerLifecycle.isShuttingDown_requestShutdown
  · exact hquiet.isShuttingDown_eq.ge

/-- Readiness is all that is left of monotonicity where the invariant holds. -/
theorem isMonotone_iff (service : String) (hs : IsSound s) :
    IsMonotone service s ↔ (s.requests ≠ [] → s.lifecycle.ready = false) := by
  constructor
  · intro h hrequests
    exact congrArg ReadyzResponse.ok (h.notReady hrequests)
  · intro hready
    refine ⟨?_, hs.isShuttingDown_iff.mpr, fun hrequests => ?_, fun hrequests => ?_, hs.exits⟩
    · rw [hs.serverStops_eq]
      split
      · exact Nat.le_refl 1
      · exact Nat.zero_le 1
    · rw [hs.aborted_eq]
      exact hs.isShuttingDown_iff.mpr hrequests
    · rw [WorkerLifecycle.readyz, hready hrequests]
      rfl

/-- A step keeps the worker from being ready during a shutdown exactly if it is not the one
that says that it is ready. -/
theorem isMonotone_step_iff (service : String) (hs : IsSound s) (hm : IsMonotone service s)
    (h : s.step a = some s') : IsMonotone service s' ↔ ReadiesInTime s a := by
  rw [isMonotone_iff service (hs.step h)]
  rw [isMonotone_iff service hs] at hm
  obtain ⟨⟨request, hl, hr, -⟩, ha⟩ | hquiet := step_cases h
  · refine iff_of_true (fun _ => ?_) fun hready => absurd hready (ha true)
    rw [hl]
    by_cases hdown : s.lifecycle.isShuttingDown = true
    · obtain ⟨hready, -⟩ := (s.lifecycle.noteRequest request).installFallback_frame
      rw [WorkerLifecycle.requestShutdown_of_isShuttingDown hdown, hready]
      exact hm (hs.isShuttingDown_iff.mp hdown)
    · rw [WorkerLifecycle.requestShutdown_of_not_isShuttingDown hdown]
      rfl
  · rw [hquiet.requests_eq, ← Bool.not_eq_true, hquiet.ready_iff]
    constructor
    · intro hnot hready
      by_contra hrequests
      exact hnot hrequests (.inl hready)
    · rintro hsafe hrequests (hready | ⟨hready, -⟩)
      · exact hrequests (hsafe hready)
      · rw [hm hrequests] at hready
        cases hready

end

theorem isSound_init : IsSound {} where
  serverStops_eq := rfl
  isShuttingDown_iff := by decide
  aborted_eq := rfl
  codesAtMost := nofun
  exits := nofun

/-- **A shutdown is monotone exactly if nobody says that the worker is ready during it.** In
every schedule of calls, events, waits and timers, the signal and the shutdown stay what they
are once they have begun, and all else that is to hold does, if and only if no step sets
readiness after a request. -/
theorem shutdown_monotone_iff (service : String) (as : List Action) :
    (Run.Rising step (fun s => s.lifecycle.aborted) {} as ∧
        Run.Rising step (fun s => s.lifecycle.isShuttingDown) {} as ∧
        Run.Always step (IsMonotone service) {} as) ↔
      Run.EachStep step ReadiesInTime {} as := by
  have hI : ∀ (s : LifecycleRun) a s', IsSound s → s.step a = some s' → IsSound s' :=
    fun _ _ _ hs h => hs.step h
  have hdown : Run.Rising step (fun s => s.lifecycle.isShuttingDown) {} as :=
    Run.Rising.of_invariant hI (fun _ _ _ _ h => isShuttingDown_le h) isSound_init as
  have haborted : Run.Rising step (fun s => s.lifecycle.aborted) {} as :=
    Run.Rising.of_invariant hI
      (fun s a s' hs h => by
        rw [hs.aborted_eq, (hs.step h).aborted_eq]
        exact isShuttingDown_le h)
      isSound_init as
  rw [and_iff_right haborted, and_iff_right hdown]
  exact Run.always_iff_eachStep hI
    (fun _ _ _ hs hm h => isMonotone_step_iff service hs hm h) isSound_init
    ((isMonotone_iff service isSound_init).mpr fun _ => rfl) as

/-- The supervisor is connecting to the database when the worker is told to terminate; it
says that the worker is ready when it has connected. -/
def terminatedWhileConnecting : List Action := [.event .sigterm, .setReady true]

/-- The worker is shutting down, and its readiness endpoint answers that it is ready. -/
theorem terminatedWhileConnecting_ready :
    (Run.follow step {} terminatedWhileConnecting).map
        (fun s => (s.lifecycle.isShuttingDown, s.lifecycle.readyz "kg-parse-worker"))
      = some (true, ⟨true, "kg-parse-worker", "ready", 200⟩) := by
  decide +kernel

end LifecycleRun

end Workers
