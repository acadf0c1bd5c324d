import IntuitionCore.Workers.Scheduler

/-!
# The shutdown of a worker

A worker reconciles: it lists the nodes that wait, and schedules them, until it is told to
stop, or an iteration fails once too often. It then waits for the runs that are in flight,
for as long as it is configured to, looking at them again and again. After that it expires
the leases of whatever it has not finished, so that the next worker need not wait for them.

The signal that tells it to stop also ends its waiting. It reaches the wait between two
looks, and the look itself: a worker that was told to stop does not wait at all.

Times and durations are in milliseconds.
-/

/-- What a worker is configured with, as far as its shutdown goes. -/
structure WorkerConfig where
  concurrency : ℕ := 4
  shutdownTimeoutMs : ℕ := 30_000
  /-- The configuration is parsed with a least value. -/
  concurrency_pos : 0 < concurrency := by decide

/-- How many ids are listed at a time, for each that is worked on. -/
def reconcileBatchSizeMultiplier : ℕ := 4

namespace WorkerConfig

variable (config : WorkerConfig)

def maxPending : ℕ := config.concurrency * reconcileBatchSizeMultiplier

theorem one_le_maxPending : 1 ≤ config.maxPending :=
  Nat.mul_pos config.concurrency_pos (by decide)

end WorkerConfig

/-- What a worker is doing. -/
inductive WorkerPhase where
  | reconciling
  /-- It is about to look at what is in flight. -/
  | draining
  | sleeping (wakeAt : ℕ)
  /-- It no longer waits, and is about to release its leases. -/
  | drained
  | released
  deriving DecidableEq, Repr

/-- A worker, from its start to its end. -/
structure WorkerRun (α : Type) where
  clock : ℕ := 0
  scheduler : SchedulerRun α := {}
  phase : WorkerPhase := .reconciling
  /-- When the drain began, once it has. -/
  startedAt : ℕ := 0

namespace WorkerRun

variable {α : Type} [DecidableEq α] (config : WorkerConfig)

/-- What happens to a worker. -/
inductive Action (α : Type) where
  | wait (ms : ℕ)
  /-- An iteration of the loop schedules an id. -/
  | schedule (id : α)
  /-- The run of an id settles. -/
  | settle (id : α)
  /-- Shutdown is requested. -/
  | abort
  /-- The loop returns, because the signal is aborted, or throws. -/
  | leave
  /-- The drain looks whether it still has to wait. -/
  | look
  /-- The sleep between two looks is over. -/
  | wake
  /-- The leases of the worker are released. -/
  | release
  deriving DecidableEq, Repr

/-- How long a drain sleeps between two looks. -/
def pollMs : ℕ := 100

/-- The drain waits on. -/
abbrev KeepsWaiting (s : WorkerRun α) : Prop :=
  0 < s.scheduler.inflight.card ∧ s.clock - s.startedAt < config.shutdownTimeoutMs
    ∧ s.scheduler.aborted = false

/-- Something happens to the scheduler. -/
def withScheduler (s : WorkerRun α) (a : SchedulerRun.Action α) : Option (WorkerRun α) :=
  (s.scheduler.step config.concurrency config.maxPending a).map fun scheduler =>
    { s with scheduler }

def step (s : WorkerRun α) : Action α → Option (WorkerRun α)
  | .wait ms => some { s with clock := s.clock + ms }
  | .schedule id => if s.phase = .reconciling then s.withScheduler config (.schedule id) else none
  | .settle id => s.withScheduler config (.settle id)
  | .abort => s.withScheduler config .abort
  | .leave =>
    if s.phase = .reconciling then
      some { s with phase := .draining, startedAt := s.clock }
    else none
  | .look =>
    if s.phase = .draining then
      some { s with
        phase :=
          if s.KeepsWaiting config then .sleeping (s.clock + pollMs) else .drained }
    else none
  | .wake =>
    match s.phase with
    | .sleeping wakeAt =>
      -- the timer fires, or the signal is aborted
      if wakeAt ≤ s.clock ∨ s.scheduler.aborted = true then some { s with phase := .draining }
      else none
    | _ => none
  | .release => if s.phase = .drained then some { s with phase := .released } else none

/-- There is nothing left to wait for: no run is in flight, or the time is up. -/
abbrev DrainIsOver (s : WorkerRun α) : Prop :=
  s.scheduler.running = [] ∨ config.shutdownTimeoutMs ≤ s.clock - s.startedAt

/-- **Leases are released after the drain.** -/
abbrev ReleasesDrained (s : WorkerRun α) (a : Action α) : Prop :=
  a = .release → s.DrainIsOver config

/-- The drain does not find the signal aborted before it is over. -/
abbrev LooksUnaborted (s : WorkerRun α) (a : Action α) : Prop :=
  a = .look → s.scheduler.aborted = true → s.DrainIsOver config

/-- Where a worker no longer waits, its drain is over. -/
structure IsDrained (s : WorkerRun α) : Prop where
  full : s.scheduler.IsFull config.concurrency config.maxPending
  isOver : s.phase = .drained → s.DrainIsOver config

variable {config} {s s' : WorkerRun α} {a : Action α}

/-- Only a run that is in flight settles. -/
theorem running_ne_nil_of_settle {scheduler scheduler' : SchedulerRun α} {id : α}
    {concurrency maxPending : ℕ}
    (h : scheduler.step concurrency maxPending (.settle id) = some scheduler') :
    scheduler.running ≠ [] := by
  obtain ⟨hid, -⟩ := Option.ite_none_right_eq_some.mp h
  exact List.ne_nil_of_mem hid

/-- A drain that stops waiting is over, unless the signal stopped it. -/
theorem drainIsOver_of_not_keepsWaiting
    (hfull : s.scheduler.IsFull config.concurrency config.maxPending)
    (hsafe : s.scheduler.aborted = true → s.DrainIsOver config)
    (h : ¬ s.KeepsWaiting config) : s.DrainIsOver config := by
  by_cases haborted : s.scheduler.aborted = true
  · exact hsafe haborted
  · by_cases hrunning : s.scheduler.running = []
    · exact .inl hrunning
    · refine .inr (not_lt.mp fun htime => h ⟨?_, htime, Bool.eq_false_iff.mpr haborted⟩)
      rw [← hfull.length_running]
      exact List.length_pos_of_ne_nil hrunning

/-- Nothing that happens to the scheduler undoes a drain. -/
theorem IsDrained.withScheduler {a : SchedulerRun.Action α} (h : IsDrained config s)
    (hphase : ∀ id, a = .schedule id → s.phase = .reconciling)
    (hs' : s.withScheduler config a = some s') : IsDrained config s' := by
  obtain ⟨scheduler, hscheduler, rfl⟩ := Option.map_eq_some_iff.mp hs'
  refine ⟨h.full.step config.one_le_maxPending hscheduler, fun hdrained => ?_⟩
  have hover := h.isOver hdrained
  cases a with
  | schedule id => cases (hphase id rfl).symm.trans hdrained
  | settle id => exact .inr (hover.resolve_left (running_ne_nil_of_settle hscheduler))
  | abort =>
    cases hscheduler
    exact hover

/-- **A worker stops waiting when its drain is over**, where the signal does not cut it
short. -/
theorem IsDrained.step (h : IsDrained config s) (hsafe : LooksUnaborted config s a)
    (hs' : s.step config a = some s') : IsDrained config s' := by
  cases a with
  | wait ms =>
    cases hs'
    refine ⟨h.full, fun hphase => (h.isOver hphase).imp id fun helapsed => helapsed.trans ?_⟩
    exact Nat.sub_le_sub_right (Nat.le_add_right _ _) _
  | schedule id =>
    obtain ⟨hphase, hs'⟩ := Option.ite_none_right_eq_some.mp hs'
    exact h.withScheduler (fun _ _ => hphase) hs'
  | settle id =>
    refine h.withScheduler ?_ hs'
    exact nofun
  | abort =>
    refine h.withScheduler ?_ hs'
    exact nofun
  | leave =>
    obtain ⟨-, hs'⟩ := Option.ite_none_right_eq_some.mp hs'
    cases hs'
    exact ⟨h.full, nofun⟩
  | look =>
    obtain ⟨-, hs'⟩ := Option.ite_none_right_eq_some.mp hs'
    cases hs'
    refine ⟨h.full, fun hdrained => ?_⟩
    refine drainIsOver_of_not_keepsWaiting h.full (hsafe rfl) fun hwaiting => ?_
    cases (if_pos hwaiting).symm.trans hdrained
  | wake =>
    simp only [WorkerRun.step] at hs'
    split at hs'
    · obtain ⟨-, hs'⟩ := Option.ite_none_right_eq_some.mp hs'
      cases hs'
      exact ⟨h.full, nofun⟩
    · cases hs'
  | release =>
    obtain ⟨-, hs'⟩ := Option.ite_none_right_eq_some.mp hs'
    cases hs'
    exact ⟨h.full, nofun⟩

/-- **A drain that finds the signal aborted before it is over** lets the worker release its
leases at once. -/
theorem not_releasesDrained_of_look (hphase : s.phase = .draining)
    (h : ¬ LooksUnaborted config s .look) :
    ¬ Run.EachStep (step config) (ReleasesDrained config) s [.look, .release] := by
  obtain ⟨haborted, hover⟩ := Classical.not_imp.mp fun h' => h fun _ => h'
  have hwaiting : ¬ s.KeepsWaiting config :=
    fun hwaiting => Bool.false_ne_true (hwaiting.2.2.symm.trans haborted)
  have hlook : s.step config .look = some { s with phase := .drained } := by
    simp only [WorkerRun.step, if_pos hphase, if_neg hwaiting]
  intro heach
  exact hover (((heach _ hlook).2 _ rfl).1 rfl)

end WorkerRun

open WorkerRun

/-- **A worker releases its leases after its drain**, in every run in which no drain finds
the signal aborted before it is over: whatever is scheduled, in whatever order the runs
settle, and whenever shutdown is requested. -/
theorem leases_released_after_drain {α : Type} [DecidableEq α] {config : WorkerConfig}
    {actions : List (Action α)}
    (h : Run.EachStep (step config) (LooksUnaborted config) {} actions) :
    Run.EachStep (step config) (ReleasesDrained config) {} actions := by
  refine h.imp_of_invariant (I := IsDrained config) (fun s a s' hI hsafe hs' => hI.step hsafe hs')
    (fun s a s' hI hs' _ hrelease => ?_) ⟨SchedulerRun.isFull_start, nofun⟩
  subst hrelease
  exact hI.isOver (Option.ite_none_right_eq_some.mp hs').1

/-- The loop of a worker throws; the worker waits for the atom that it works on, and is told
to stop when that has settled. -/
def stoppedAfterWork : List (Action String) :=
  [.schedule "0x01", .leave, .look, .wait 40, .settle "0x01", .abort, .wake, .look, .release]

/-- It releases its leases with nothing in flight. -/
theorem leases_released_after_drain_stoppedAfterWork :
    (∃ s, Run.follow (step {}) {} stoppedAfterWork = some s)
      ∧ Run.EachStep (step {}) (ReleasesDrained {}) {} stoppedAfterWork := by
  have hrun : (Run.follow (step {}) {} stoppedAfterWork).isSome := by decide +kernel
  exact ⟨Option.isSome_iff_exists.mp hrun, leases_released_after_drain (by decide +kernel)⟩

/-- A worker is told to stop while it works on an atom. It looks once, and releases its
leases. -/
def stoppedAtWork : List (Action String) :=
  [.schedule "0x01", .abort, .leave, .look, .release]

/-- It does so at once, with the atom in flight and all of its thirty seconds left. -/
theorem stoppedAtWork_not_releasesDrained :
    ¬ Run.EachStep (step {}) (ReleasesDrained {}) {} stoppedAtWork := by
  decide +kernel
