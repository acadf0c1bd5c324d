import IntuitionCore.Library.ReentrantLock
import IntuitionCore.Library.Run
import IntuitionCore.Library.Table

/-!
# The lock of the batch cycles

A cycle of the activity profiles takes an advisory lock first, and skips if it does
not get it. The lock belongs to the database session that took it, which may take it
again, and only that session can release it.

But a cycle has no session of its own. Each of its statements runs on whatever
session of its process's pool is idle: so the one that unlocks may run on another
session than the one that locked, and a second cycle of the process may be given the
session that holds the lock. The error of the unlock is ignored, and a cycle whose
state cannot be read returns before it. So the lock does what it is for exactly if
none of this happens.

A process that ends takes its sessions with it, and the locks they hold. No session
ends otherwise.
-/

/-- A session of the pool of a process. -/
structure PoolSession where
  process : ℕ
  connection : ℕ
  deriving DecidableEq, Repr

/-- How far a call of `run_cycle` is that has the lock. -/
inductive CyclePhase where
  /-- It reads whether the backfill is complete. -/
  | reading
  /-- It runs the one cycle or the other. -/
  | running
  deriving DecidableEq, Repr

/-- A call of `run_cycle` that was given the lock. -/
structure CycleCall where
  process : ℕ
  phase : CyclePhase := .reading
  /-- The session that it took the lock on. The call does not know it. -/
  lockedOn : PoolSession
  deriving DecidableEq, Repr

/-- The advisory lock, the sessions that are not idle, and the calls that have the
lock. -/
structure BatchLock where
  lock : ReentrantLock PoolSession := none
  busy : Finset PoolSession := ∅
  calls : Table ℕ CycleCall := ∅

namespace BatchLock

/-- What happens to the sessions, and the steps of a call. -/
inductive Action where
  /-- A session is given to something else, or returned. -/
  | checkOut (session : PoolSession)
  | checkIn (session : PoolSession)
  /-- A call tries to take the lock, on an idle session; without it, it returns. -/
  | acquire (i : ℕ) (session : PoolSession)
  /-- It reads the state of the backfill, or fails to and returns. -/
  | getBackfillState (i : ℕ) (ok : Bool)
  /-- It unlocks, on an idle session, and returns. -/
  | unlock (i : ℕ) (session : PoolSession)
  /-- The statement that unlocks fails; the call returns. -/
  | unlockFails (i : ℕ)
  /-- A process ends. -/
  | exit (process : ℕ)
  deriving DecidableEq, Repr

variable (s : BatchLock)

/-- A call comes to be somewhere, or is over. -/
def setCall (i : ℕ) (c : Option CycleCall) : BatchLock :=
  { s with calls := s.calls.alter i fun _ => c }

/-- What an action does, where it is possible. -/
def step : Action → Option BatchLock
  | .checkOut session =>
    if session ∉ s.busy then some { s with busy := insert session s.busy } else none
  | .checkIn session =>
    if session ∈ s.busy then some { s with busy := s.busy.erase session } else none
  | .acquire i session =>
    if s.calls.lookup i = none ∧ session ∉ s.busy then
      let (acquired, lock) := s.lock.tryAcquire session
      if acquired then
        some { s.setCall i (some { process := session.process, lockedOn := session }) with lock }
      else some s
    else none
  | .getBackfillState i ok => do
    let c ← s.calls.lookup i
    if c.phase = .reading then
      some (s.setCall i (if ok then some { c with phase := .running } else none))
    else none
  | .unlock i session => do
    let c ← s.calls.lookup i
    if c.phase = .running ∧ session ∉ s.busy ∧ session.process = c.process then
      some { s.setCall i none with lock := s.lock.release session }
    else none
  | .unlockFails i => do
    let c ← s.calls.lookup i
    if c.phase = .running then some (s.setCall i none) else none
  | .exit process =>
    some { s with
      lock := s.lock.filter fun held => held.holder.process ≠ process
      busy := s.busy.filter fun session => session.process ≠ process
      calls := s.calls.deleteRows fun _ c => c.process = process }

/-- **The lock excludes, and is released**: at most one call has it, and if none
does it is free. -/
structure Excludes : Prop where
  unique : ∀ i j ci cj, s.calls.lookup i = some ci → s.calls.lookup j = some cj → i = j
  free : (∀ i, s.calls.lookup i = none) → s.lock = none

/-- The pool gives no session that has the lock to a call that would take it, and the
session that has it to the call that unlocks; and neither the statement that unlocks
fails nor the one before the cycle. -/
def MayGo : Action → Prop
  | .acquire _ session => ∀ held ∈ s.lock, held.holder ≠ session
  | .getBackfillState _ ok => ok
  | .unlock i session => ∀ c ∈ s.calls.lookup i, c.lockedOn = session
  | .unlockFails _ => False
  | _ => True

/-- The lock was taken once, on a session of the process of the call that has it. -/
def HeldByCall : Prop :=
  ∀ i c, s.calls.lookup i = some c → s.lock = some ⟨c.lockedOn, 0⟩ ∧ c.lockedOn.process = c.process

/-! ## What a step does -/

variable {s} {s' : BatchLock} {i j : ℕ} {c c' : CycleCall}

theorem lookup_setCall (o : Option CycleCall) :
    (s.setCall i o).calls.lookup j = if j = i then o else s.calls.lookup j :=
  s.calls.lookup_alter i j _

/-- The call that has the lock is the only one. -/
theorem Excludes.lookup_eq_none (h : s.Excludes) (hi : s.calls.lookup i = some c) (hj : j ≠ i) :
    s.calls.lookup j = none := by
  cases hlookup : s.calls.lookup j with
  | none => rfl
  | some c' => exact absurd (h.unique j i c' c hlookup hi) hj

/-- What takes the place of the only call is the only one. -/
theorem Excludes.lookup_setCall (h : s.Excludes) (hi : s.calls.lookup i = some c)
    (o : Option CycleCall) : (s.setCall i o).calls.lookup j = if j = i then o else none := by
  rw [BatchLock.lookup_setCall]
  split
  · rfl
  · next hj => exact h.lookup_eq_none hi hj

/-- A call that goes on keeps the lock. -/
theorem Excludes.of_goesOn (h : s.Excludes) (hheld : s.HeldByCall)
    (hi : s.calls.lookup i = some c) (hprocess : c'.process = c.process)
    (hlocked : c'.lockedOn = c.lockedOn) :
    (s.setCall i (some c')).Excludes ∧ (s.setCall i (some c')).HeldByCall := by
  have hlookup : ∀ j cj, (s.setCall i (some c')).calls.lookup j = some cj → j = i ∧ cj = c' := by
    intro j cj hj
    rw [h.lookup_setCall hi] at hj
    split at hj
    · next hji => exact ⟨hji, (Option.some.inj hj).symm⟩
    · cases hj
  refine ⟨⟨fun j j' cj cj' hj hj' => ?_, fun hnone => ?_⟩, fun j cj hj => ?_⟩
  · rw [(hlookup j cj hj).1, (hlookup j' cj' hj').1]
  · have hi' := hnone i
    rw [h.lookup_setCall hi, if_pos rfl] at hi'
    cases hi'
  · obtain ⟨-, rfl⟩ := hlookup j cj hj
    rw [hlocked, hprocess]
    exact hheld i c hi

/-- A call that returns leaves no other one: the lock has to be free. -/
theorem Excludes.of_returns (h : s.Excludes) (hi : s.calls.lookup i = some c)
    (lock : ReentrantLock PoolSession) :
    ({ s.setCall i none with lock }.Excludes ↔ lock = none)
      ∧ { s.setCall i none with lock }.HeldByCall := by
  have hlookup : ∀ j, (s.setCall i none).calls.lookup j = none := fun j => by
    rw [h.lookup_setCall hi, ite_self]
  refine ⟨⟨fun hx => hx.free hlookup, fun hfree => ⟨fun j j' cj cj' hj => ?_, fun _ => hfree⟩⟩,
    fun j cj hj => ?_⟩
  · exact absurd (hj.symm.trans (hlookup j)) nofun
  · exact absurd (hj.symm.trans (hlookup j)) nofun

/-- **A call is given the lock while another one has it exactly if it is given its
session.** -/
theorem excludes_acquire (h : s.Excludes) (hheld : s.HeldByCall) {session : PoolSession}
    (hstep : s.step (.acquire i session) = some s') :
    (s'.Excludes ↔ s.MayGo (.acquire i session)) ∧ (s'.Excludes → s'.HeldByCall) := by
  obtain ⟨⟨hi, -⟩, hstep⟩ := Option.ite_none_right_eq_some.mp hstep
  by_cases hfree : ∀ j, s.calls.lookup j = none
  · -- no call has the lock, so this one gets it
    have hlock := h.free hfree
    simp only [hlock, if_true] at hstep
    cases hstep
    have hlookup : ∀ j cj, (s.setCall i (some { process := session.process, lockedOn := session })
        ).calls.lookup j = some cj →
        j = i ∧ cj = { process := session.process, lockedOn := session } := by
      intro j cj hj
      rw [BatchLock.lookup_setCall] at hj
      split at hj
      · next hji => exact ⟨hji, (Option.some.inj hj).symm⟩
      · exact absurd (hj.symm.trans (hfree j)) nofun
    refine ⟨iff_of_true ⟨fun j j' cj cj' hj hj' => ?_, fun hnone => ?_⟩ ?_, fun _ j cj hj => ?_⟩
    · rw [(hlookup j cj hj).1, (hlookup j' cj' hj').1]
    · have hi' := (BatchLock.lookup_setCall (s := s) (i := i) (j := i) _).symm.trans (hnone i)
      rw [if_pos rfl] at hi'
      cases hi'
    · intro held hmem
      rw [hlock] at hmem
      cases hmem
    · obtain ⟨-, rfl⟩ := hlookup j cj hj
      exact ⟨rfl, rfl⟩
  · obtain ⟨j, hj⟩ := not_forall.mp hfree
    obtain ⟨cj, hcj⟩ := Option.ne_none_iff_exists'.mp hj
    have hlock := (hheld j cj hcj).1
    have hji : j ≠ i := by
      rintro rfl
      exact hj hi
    simp only [hlock] at hstep
    by_cases hsession : cj.lockedOn = session
    · -- it is given the session of the other call
      simp only [hsession, if_true] at hstep
      cases hstep
      have hnot : ¬ { s.setCall i (some { process := session.process, lockedOn := session }) with
          lock := some ⟨session, 1⟩ }.Excludes := by
        intro hx
        refine hji (hx.unique j i cj { process := session.process, lockedOn := session } ?_ ?_)
        · exact (BatchLock.lookup_setCall _).trans ((if_neg hji).trans hcj)
        · exact (BatchLock.lookup_setCall _).trans (if_pos rfl)
      exact ⟨iff_of_false hnot fun hmay => hmay _ hlock hsession, fun hx => absurd hx hnot⟩
    · rw [if_neg hsession] at hstep
      cases hstep
      refine ⟨iff_of_true h fun held hmem => ?_, fun _ => hheld⟩
      cases hlock.symm.trans hmem
      exact hsession

/-- A process that ends takes its call and the lock with it. -/
theorem excludes_exit (h : s.Excludes) (hheld : s.HeldByCall) {process : ℕ}
    (hstep : s.step (.exit process) = some s') : s'.Excludes ∧ s'.HeldByCall := by
  cases hstep
  have hlookup : ∀ j cj, (s.calls.deleteRows fun _ c => c.process = process).lookup j = some cj ↔
      s.calls.lookup j = some cj ∧ cj.process ≠ process := by
    intro j cj
    rw [Table.lookup_deleteRows]
    refine Option.mem_filter_iff.trans ?_
    simp
  refine ⟨⟨fun j j' cj cj' hj hj' => ?_, fun hnone => ?_⟩, fun j cj hj => ?_⟩
  · exact h.unique j j' cj cj' ((hlookup j cj).mp hj).1 ((hlookup j' cj').mp hj').1
  · by_cases hfree : ∀ j, s.calls.lookup j = none
    · show s.lock.filter _ = none
      rw [h.free hfree]
      rfl
    · obtain ⟨j, hj⟩ := not_forall.mp hfree
      obtain ⟨cj, hcj⟩ := Option.ne_none_iff_exists'.mp hj
      obtain ⟨hlock, hprocess⟩ := hheld j cj hcj
      have hends : cj.process = process := by
        by_contra hne
        exact absurd ((hlookup j cj).mpr ⟨hcj, hne⟩ |>.symm.trans (hnone j)) nofun
      show s.lock.filter _ = none
      rw [hlock]
      simp [hprocess, hends]
  · obtain ⟨hcj, hne⟩ := (hlookup j cj).mp hj
    obtain ⟨hlock, hprocess⟩ := hheld j cj hcj
    refine ⟨?_, hprocess⟩
    show s.lock.filter _ = _
    rw [hlock]
    simp [hprocess, hne]

/-- **The lock is lost exactly at the steps that may not go.** -/
theorem excludes_step_iff (h : s.Excludes) (hheld : s.HeldByCall) {a : Action}
    (hstep : s.step a = some s') :
    (s'.Excludes ↔ s.MayGo a) ∧ (s'.Excludes → s'.HeldByCall) := by
  cases a with
  | checkOut session =>
    obtain ⟨-, ⟨⟩⟩ := Option.ite_none_right_eq_some.mp hstep
    exact ⟨iff_of_true ⟨h.unique, h.free⟩ trivial, fun _ => hheld⟩
  | checkIn session =>
    obtain ⟨-, ⟨⟩⟩ := Option.ite_none_right_eq_some.mp hstep
    exact ⟨iff_of_true ⟨h.unique, h.free⟩ trivial, fun _ => hheld⟩
  | acquire i session => exact excludes_acquire h hheld hstep
  | getBackfillState i ok =>
    obtain ⟨c, hi, hstep⟩ := Option.bind_eq_some_iff.mp hstep
    obtain ⟨-, ⟨⟩⟩ := Option.ite_none_right_eq_some.mp hstep
    cases ok with
    | true =>
      have hgoes : (s.setCall i (some { c with phase := .running })).Excludes
          ∧ (s.setCall i (some { c with phase := .running })).HeldByCall :=
        h.of_goesOn hheld hi rfl rfl
      exact ⟨iff_of_true hgoes.1 rfl, fun _ => hgoes.2⟩
    | false =>
      obtain ⟨hfree, hheld'⟩ := h.of_returns hi s.lock
      refine ⟨hfree.trans (iff_of_false (fun hnone => ?_) nofun), fun _ => hheld'⟩
      exact absurd (hnone.symm.trans (hheld i c hi).1) nofun
  | unlock i session =>
    obtain ⟨c, hi, hstep⟩ := Option.bind_eq_some_iff.mp hstep
    obtain ⟨-, ⟨⟩⟩ := Option.ite_none_right_eq_some.mp hstep
    obtain ⟨hfree, hheld'⟩ := h.of_returns hi (s.lock.release session)
    refine ⟨hfree.trans ?_, fun _ => hheld'⟩
    have hmay : s.MayGo (.unlock i session) ↔ c.lockedOn = session :=
      ⟨fun hmay => hmay c hi, fun hsame c' hc' => by cases hi.symm.trans hc'; exact hsame⟩
    rw [hmay, (hheld i c hi).1, ReentrantLock.release_once]
    exact ite_eq_left_iff.trans (not_imp_comm.trans (imp_iff_right nofun))
  | unlockFails i =>
    obtain ⟨c, hi, hstep⟩ := Option.bind_eq_some_iff.mp hstep
    obtain ⟨-, ⟨⟩⟩ := Option.ite_none_right_eq_some.mp hstep
    obtain ⟨hfree, hheld'⟩ := h.of_returns hi s.lock
    refine ⟨hfree.trans (iff_of_false (fun hnone => ?_) id), fun _ => hheld'⟩
    exact absurd (hnone.symm.trans (hheld i c hi).1) nofun
  | exit process =>
    obtain ⟨hx, hheld'⟩ := excludes_exit h hheld hstep
    exact ⟨iff_of_true hx trivial, fun _ => hheld'⟩

theorem excludes_start : ({} : BatchLock).Excludes where
  unique i _ _ _ hi := absurd ((Finmap.lookup_empty i).symm.trans hi) nofun
  free _ := rfl

theorem heldByCall_start : ({} : BatchLock).HeldByCall := fun i _ hi =>
  absurd ((Finmap.lookup_empty i).symm.trans hi) nofun

end BatchLock

/-- **The lock excludes, and is released, exactly if the pool happens to pair its
statements.** Whatever calls are made, from whatever processes, and whatever idle
sessions their statements run on: at most one call has the lock in every state that
is passed, and the lock is free if none has it, if and only if no call is given the
session that holds the lock to take it, each call is given the session it took the
lock on to unlock, and neither that statement nor the reading of the state of the
backfill fails. -/
theorem batchLock_excludes_iff (actions : List BatchLock.Action) :
    Run.Always BatchLock.step BatchLock.Excludes {} actions
      ↔ Run.EachStep BatchLock.step BatchLock.MayGo {} actions :=
  Run.always_iff_eachStep_of_kept (I := BatchLock.HeldByCall)
    (fun _ _ _ hheld h hstep => (BatchLock.excludes_step_iff h hheld hstep).2)
    (fun _ _ _ hheld h hstep => (BatchLock.excludes_step_iff h hheld hstep).1)
    BatchLock.heldByCall_start BatchLock.excludes_start actions

/-- A cycle takes the lock on one session, and unlocks on another one: the session
that has the lock is in use then. -/
def unlocksElsewhere : List BatchLock.Action :=
  [.acquire 0 ⟨0, 0⟩, .getBackfillState 0 true, .checkOut ⟨0, 0⟩, .unlock 0 ⟨0, 1⟩,
    .checkIn ⟨0, 0⟩]

/-- **The lock can be left with nobody**: the next cycle, in another process, is
skipped. -/
theorem unlocksElsewhere_not_excludes :
    ¬ ∀ (actions : List BatchLock.Action) (s : BatchLock),
      Run.follow BatchLock.step {} actions = some s → s.Excludes := by
  intro h
  have hrun : (Run.follow BatchLock.step {} unlocksElsewhere).map (fun s => (s.lock, s.calls.keys))
      = some (some ⟨⟨0, 0⟩, 0⟩, ∅) := by
    decide +kernel
  obtain ⟨s, hs, heq⟩ := Option.map_eq_some_iff.mp hrun
  simp only [Prod.mk.injEq] at heq
  obtain ⟨hlock, hcalls⟩ := heq
  have hfree := (h _ s hs).free fun i => ?_
  · exact absurd (hlock.symm.trans hfree) nofun
  · rw [Finmap.lookup_eq_none, ← Finmap.mem_keys, hcalls]
    exact Finset.notMem_empty i
