import IntuitionCore.Library.Run
import Mathlib.Data.Finset.Basic
import Mathlib.Data.Fintype.Basic

/-!
# One connection for many tasks

The tasks that write to the graph database share one connection, in a slot behind a lock for
readers and writers, with a flag that says whether the slot holds a connection. A task that
wants the connection looks at the flag. If it is up, the task takes the lock for reading; if
not, it takes it for writing first, and connects again unless the slot holds a connection.
A task whose query failed takes the flag down and tries to empty the slot, and gives up if
another task has the lock.

These are separate steps, and any number of tasks may take theirs in any order. That a
connection attempt fails or a task is cancelled while it waits is a step too. Waiting tasks
get the lock in any order here, while the lock of the code serves them in the order they came.
-/

/-- What a task does that writes a batch. -/
inductive SinkTask where
  | idle
  /-- It has called for the connection. -/
  | called
  /-- It waits for the lock, to read. -/
  | awaitingRead
  /-- It waits for the lock, to write. -/
  | awaitingWrite
  /-- It has the lock to write. -/
  | writing
  /-- It has the lock to write, and the slot holds a connection. -/
  | storing
  /-- It has put the flag up, and still has the lock. -/
  | storedFlag
  /-- It was given the lock to read: the call returned. -/
  | guarding
  /-- It has taken a connection, returned the lock, and queries. -/
  | querying (conn : ℕ)
  /-- Its query failed; it has taken the flag down. -/
  | marking (conn : ℕ)
  /-- It was given an empty slot. -/
  | panicked
  deriving DecidableEq, Repr

/-- The steps of tasks. -/
inductive SinkAction (τ : Type) where
  | getConnection (t : τ)
  | loadConnected (t : τ)
  | lockRead (t : τ)
  | lockWrite (t : τ)
  /-- A connection attempt, if the slot is empty: whether it succeeds and passes the health
  check. -/
  | reconnect (t : τ) (healthy : Bool)
  | storeConnected (t : τ)
  | unlockWrite (t : τ)
  | useGuard (t : τ)
  | queryDone (t : τ)
  /-- A query fails. -/
  | markDisconnected (t : τ)
  | tryWrite (t : τ)
  /-- The task is dropped while it waits. -/
  | cancel (t : τ)
  deriving DecidableEq, Repr

/-- A shared connection, with the tasks that use it. -/
structure ReconnectingSurreal (τ : Type) where
  /-- The slot. -/
  connection : Option ℕ
  /-- The flag. -/
  connected : Bool
  /-- Who has the lock to read. -/
  readers : Finset τ := ∅
  /-- Who has the lock to write. -/
  writer : Option τ := none
  tasks : τ → SinkTask := fun _ => .idle
  /-- The next connection that is opened. -/
  fresh : ℕ
  /-- The connections on which a query failed and that were marked for it. -/
  marked : Finset ℕ := ∅
  /-- What was marked when a task last called for the connection. -/
  markedBefore : τ → Finset ℕ := fun _ => ∅

namespace ReconnectingSurreal

variable {τ : Type} [DecidableEq τ]

/-- A connection is opened at the start. -/
def new : ReconnectingSurreal τ := { connection := some 0, connected := true, fresh := 1 }

variable (s : ReconnectingSurreal τ)

/-- A task goes on to another step. -/
def move (t : τ) (p : SinkTask) : ReconnectingSurreal τ :=
  { s with tasks := Function.update s.tasks t p }

/-- No task has the lock. -/
def Unlocked : Prop := s.writer = none ∧ s.readers = ∅

instance : Decidable s.Unlocked := inferInstanceAs (Decidable (_ ∧ _))

/-- A step of a task, where it can take it. -/
def step : SinkAction τ → Option (ReconnectingSurreal τ)
  | .getConnection t =>
    if s.tasks t = .idle then
      some { s.move t .called with markedBefore := Function.update s.markedBefore t s.marked }
    else none
  | .loadConnected t =>
    if s.tasks t = .called then
      some (s.move t (if s.connected then .awaitingRead else .awaitingWrite))
    else none
  | .lockRead t =>
    if s.tasks t = .awaitingRead ∧ s.writer = none then
      some { s.move t .guarding with readers := insert t s.readers }
    else none
  | .lockWrite t =>
    if s.tasks t = .awaitingWrite ∧ s.Unlocked then
      some { s.move t .writing with writer := some t }
    else none
  | .reconnect t healthy =>
    if s.tasks t = .writing then
      -- another task may have connected while this one waited for the lock
      if s.connection.isSome then some (s.move t .storing)
      else if healthy then
        some { s.move t .storing with connection := some s.fresh, fresh := s.fresh + 1 }
      else some { s.move t .idle with writer := none }
    else none
  | .storeConnected t =>
    if s.tasks t = .storing then some { s.move t .storedFlag with connected := true } else none
  | .unlockWrite t =>
    if s.tasks t = .storedFlag then some { s.move t .awaitingRead with writer := none } else none
  | .useGuard t =>
    if s.tasks t = .guarding then
      some { s.move t (s.connection.elim .panicked .querying) with readers := s.readers.erase t }
    else none
  | .queryDone t =>
    match s.tasks t with
    | .querying _ => some (s.move t .idle)
    | _ => none
  | .markDisconnected t =>
    match s.tasks t with
    | .querying conn =>
      some { s.move t (.marking conn) with connected := false, marked := insert conn s.marked }
    | _ => none
  | .tryWrite t =>
    match s.tasks t with
    | .marking _ =>
      if s.Unlocked then some { s.move t .idle with connection := none } else some (s.move t .idle)
    | _ => none
  | .cancel t =>
    match s.tasks t with
    | .awaitingRead | .awaitingWrite | .querying _ => some (s.move t .idle)
    | _ => none

/-! ## What is claimed, and when it holds -/

/-- A task is served with a connection that was not marked before it called. -/
def Serves (t : τ) : Prop := ∃ conn ∈ s.connection, conn ∉ s.markedBefore t

/-- **What is handed out is a connection**, and none that was marked before the call, so that
no task panics. -/
def ServesAll : Prop := ∀ t, (s.tasks t = .guarding → s.Serves t) ∧ s.tasks t ≠ .panicked

/-- **A safe step**: the slot is emptied only while the flag is down and nobody waits to read,
and the flag is put up only over a connection that was not marked. -/
def Safe : SinkAction τ → Prop
  | .tryWrite _ =>
    s.Unlocked → s.connected = false ∧ ∀ t, s.tasks t ≠ .awaitingRead
  | .storeConnected _ => ∀ conn ∈ s.connection, conn ∉ s.marked
  | _ => True

/-- The lock is had by the tasks that took it. -/
structure LockInv : Prop where
  readers : ∀ t, t ∈ s.readers ↔ s.tasks t = .guarding
  writer : ∀ t, s.writer = some t ↔
    s.tasks t = .writing ∨ s.tasks t = .storing ∨ s.tasks t = .storedFlag
  exclusive : s.writer = none ∨ s.readers = ∅

/-- What was marked before a call still is. -/
def MarksInv : Prop := ∀ t, s.markedBefore t ⊆ s.marked

/-- The flag is up over a good connection, and who is about to read will be served. -/
structure ServeInv : Prop where
  connected : s.connected → ∃ conn ∈ s.connection, conn ∉ s.marked
  storing : ∀ t, s.tasks t = .storing → s.connection.isSome
  serves : ∀ t, s.tasks t = .awaitingRead ∨ s.tasks t = .storedFlag ∨ s.tasks t = .guarding →
    s.Serves t
  panicked : ∀ t, s.tasks t ≠ .panicked

variable {s} {s' : ReconnectingSurreal τ} {a : SinkAction τ} {t u : τ} {p : SinkTask}

@[simp, grind =] theorem tasks_move : (s.move t p).tasks u = if u = t then p else s.tasks u :=
  Function.update_apply s.tasks t p u

/-- What a step does: the task is where it can take it, and what follows. -/
def Effect (s s' : ReconnectingSurreal τ) : SinkAction τ → Prop
  | .getConnection t => s.tasks t = .idle ∧ s' =
      { s.move t .called with markedBefore := Function.update s.markedBefore t s.marked }
  | .loadConnected t => s.tasks t = .called
      ∧ s' = s.move t (if s.connected then .awaitingRead else .awaitingWrite)
  | .lockRead t => s.tasks t = .awaitingRead ∧ s.writer = none
      ∧ s' = { s.move t .guarding with readers := insert t s.readers }
  | .lockWrite t => s.tasks t = .awaitingWrite ∧ s.Unlocked
      ∧ s' = { s.move t .writing with writer := some t }
  | .reconnect t _ => s.tasks t = .writing
      ∧ (s.connection.isSome ∧ s' = s.move t .storing
        ∨ s.connection = none ∧ s' =
          { s.move t .storing with connection := some s.fresh, fresh := s.fresh + 1 }
        ∨ s.connection = none ∧ s' = { s.move t .idle with writer := none })
  | .storeConnected t => s.tasks t = .storing
      ∧ s' = { s.move t .storedFlag with connected := true }
  | .unlockWrite t => s.tasks t = .storedFlag
      ∧ s' = { s.move t .awaitingRead with writer := none }
  | .useGuard t => s.tasks t = .guarding
      ∧ (s.connection = none ∧ s' = { s.move t .panicked with readers := s.readers.erase t }
        ∨ ∃ conn, s.connection = some conn
          ∧ s' = { s.move t (.querying conn) with readers := s.readers.erase t })
  | .queryDone t => ∃ conn, s.tasks t = .querying conn ∧ s' = s.move t .idle
  | .markDisconnected t => ∃ conn, s.tasks t = .querying conn ∧ s' =
      { s.move t (.marking conn) with connected := false, marked := insert conn s.marked }
  | .tryWrite t => ∃ conn, s.tasks t = .marking conn
      ∧ (s.Unlocked ∧ s' = { s.move t .idle with connection := none }
        ∨ ¬ s.Unlocked ∧ s' = s.move t .idle)
  | .cancel t => (s.tasks t = .awaitingRead ∨ s.tasks t = .awaitingWrite
        ∨ ∃ conn, s.tasks t = .querying conn)
      ∧ s' = s.move t .idle

theorem effect_of_step (h : s.step a = some s') : s.Effect s' a := by
  cases a with
  | reconnect t healthy => cases hconn : s.connection <;> grind [step, Effect]
  | useGuard t => cases hconn : s.connection <;> grind [step, Effect]
  | _ => grind [step, Effect]

@[simp, grind =] theorem connection_move : (s.move t p).connection = s.connection := rfl
@[simp, grind =] theorem connected_move : (s.move t p).connected = s.connected := rfl
@[simp, grind =] theorem readers_move : (s.move t p).readers = s.readers := rfl
@[simp, grind =] theorem writer_move : (s.move t p).writer = s.writer := rfl
@[simp, grind =] theorem fresh_move : (s.move t p).fresh = s.fresh := rfl
@[simp, grind =] theorem marked_move : (s.move t p).marked = s.marked := rfl
@[simp, grind =] theorem markedBefore_move :
    (s.move t p).markedBefore u = s.markedBefore u := rfl

theorem LockInv.step (hs : s.LockInv) (h : s.step a = some s') : s'.LockInv := by
  obtain ⟨hreaders, hwriter, hexclusive⟩ := hs
  have heffect := effect_of_step h
  clear h
  cases a with
  | lockRead t | lockWrite t =>
    obtain ⟨ht, hlock, rfl⟩ := heffect
    constructor <;> grind [Unlocked]
  | reconnect t healthy =>
    obtain ⟨ht, ⟨hconn, rfl⟩ | ⟨hconn, rfl⟩ | ⟨hconn, rfl⟩⟩ := heffect <;>
      constructor <;> grind [Unlocked]
  | useGuard t =>
    obtain ⟨ht, ⟨hconn, rfl⟩ | ⟨conn, hconn, rfl⟩⟩ := heffect <;> constructor <;> grind [Unlocked]
  | queryDone t | markDisconnected t =>
    obtain ⟨conn, ht, rfl⟩ := heffect
    constructor <;> grind [Unlocked]
  | tryWrite t =>
    obtain ⟨conn, ht, ⟨hlock, rfl⟩ | ⟨hlock, rfl⟩⟩ := heffect <;> constructor <;> grind [Unlocked]
  | _ t =>
    obtain ⟨ht, rfl⟩ := heffect
    constructor <;> grind [Unlocked]

theorem MarksInv.step (hs : s.MarksInv) (h : s.step a = some s') : s'.MarksInv := by
  have heffect := effect_of_step h
  cases a with
  | getConnection t =>
    obtain ⟨ht, rfl⟩ := heffect
    intro u
    show Function.update s.markedBefore t s.marked u ⊆ s.marked
    rw [Function.update_apply]
    split
    · exact Finset.Subset.refl _
    · exact hs u
  | markDisconnected t =>
    obtain ⟨conn, ht, rfl⟩ := heffect
    exact fun u => (hs u).trans (Finset.subset_insert conn s.marked)
  | lockRead t | lockWrite t =>
    obtain ⟨ht, hlock, rfl⟩ := heffect
    exact hs
  | reconnect t healthy =>
    obtain ⟨ht, ⟨hconn, rfl⟩ | ⟨hconn, rfl⟩ | ⟨hconn, rfl⟩⟩ := heffect <;> exact hs
  | useGuard t =>
    obtain ⟨ht, ⟨hconn, rfl⟩ | ⟨conn, hconn, rfl⟩⟩ := heffect <;> exact hs
  | queryDone t =>
    obtain ⟨conn, ht, rfl⟩ := heffect
    exact hs
  | tryWrite t =>
    obtain ⟨conn, ht, ⟨hlock, rfl⟩ | ⟨hlock, rfl⟩⟩ := heffect <;> exact hs
  | _ t =>
    obtain ⟨ht, rfl⟩ := heffect
    exact hs

/-- A task goes on, and serves the others no worse. -/
theorem ServeInv.goOn (hs : s.ServeInv) (t : τ) (htasks : ∀ u, u ≠ t → s'.tasks u = s.tasks u)
    (hslot : s.connection.isSome → s'.connection.isSome)
    (hothers : ∀ u, u ≠ t → s.Serves u → s'.Serves u)
    (hconnected : s'.connected → ∃ conn ∈ s'.connection, conn ∉ s'.marked)
    (hstoring : s'.tasks t = .storing → s'.connection.isSome)
    (hserves : s'.tasks t = .awaitingRead ∨ s'.tasks t = .storedFlag ∨ s'.tasks t = .guarding →
      s'.Serves t)
    (hpanicked : s'.tasks t ≠ .panicked) : s'.ServeInv where
  connected := hconnected
  storing u hu := by
    by_cases hut : u = t
    · exact hstoring (hut ▸ hu)
    · exact hslot (hs.storing u (htasks u hut ▸ hu))
  serves u hu := by
    by_cases hut : u = t
    · subst hut
      exact hserves hu
    · rw [htasks u hut] at hu
      exact hothers u hut (hs.serves u hu)
  panicked u := by
    by_cases hut : u = t
    · exact hut ▸ hpanicked
    · exact htasks u hut ▸ hs.panicked u

/-- Where the slot and the marks stay, it is a matter of the task alone. -/
theorem ServeInv.goOn_of_same (hs : s.ServeInv) (t : τ)
    (htasks : ∀ u, u ≠ t → s'.tasks u = s.tasks u) (hslot : s'.connection = s.connection)
    (hmarked : s'.marked = s.marked)
    (hbefore : ∀ u, u ≠ t → s'.markedBefore u = s.markedBefore u)
    (hconnected : s'.connected → ∃ conn ∈ s.connection, conn ∉ s.marked)
    (hstoring : s'.tasks t = .storing → s.connection.isSome)
    (hserves : s'.tasks t = .awaitingRead ∨ s'.tasks t = .storedFlag ∨ s'.tasks t = .guarding →
      s'.Serves t)
    (hpanicked : s'.tasks t ≠ .panicked) : s'.ServeInv := by
  refine hs.goOn t htasks (fun h => hslot ▸ h) (fun u hu hserved => ?_) ?_ (fun h => ?_) hserves
    hpanicked
  · unfold Serves
    rw [hslot, hbefore u hu]
    exact hserved
  · rw [hslot, hmarked]
    exact hconnected
  · rw [hslot]
    exact hstoring h

/-- A task goes on to where it is not to be served. -/
theorem ServeInv.moves (hs : s.ServeInv) (t : τ)
    (hp : p = .idle ∨ p = .writing ∨ ∃ conn, p = .querying conn)
    (htasks : s'.tasks = (s.move t p).tasks) (hslot : s'.connection = s.connection)
    (hflag : s'.connected = s.connected) (hmarked : s'.marked = s.marked)
    (hbefore : s'.markedBefore = s.markedBefore) : s'.ServeInv := by
  have hself : s'.tasks t = p := by
    rw [htasks, tasks_move]
    exact if_pos rfl
  refine hs.goOn_of_same t (fun u hut => ?_) hslot hmarked (fun u _ => congrFun hbefore u)
    (hflag ▸ hs.connected) ?_ ?_ ?_
  · rw [htasks, tasks_move]
    exact if_neg hut
  all_goals
    rw [hself]
    obtain rfl | rfl | ⟨conn, rfl⟩ := hp <;> simp

/-- **The slot can be emptied** if the flag is down, nobody waits to read and nobody has the
lock: there is no one to serve. -/
theorem ServeInv.empties (hs : s.ServeInv) (hl : s.LockInv) (hlock : s.Unlocked)
    (hdown : s.connected = false) (hnobody : ∀ u, s.tasks u ≠ .awaitingRead) (t : τ) :
    ({ s.move t .idle with connection := none } : ReconnectingSurreal τ).ServeInv := by
  have hwriting : ∀ u, ¬ (s.tasks u = .writing ∨ s.tasks u = .storing
      ∨ s.tasks u = .storedFlag) := fun u hu =>
    Option.some_ne_none u (((hl.writer u).mpr hu).symm.trans hlock.1)
  have hreading : ∀ u, s.tasks u ≠ .guarding := fun u hu =>
    Finset.notMem_empty u (hlock.2 ▸ (hl.readers u).mpr hu)
  have htasks : ∀ u p, (s.move t .idle).tasks u = p → p ≠ .idle → s.tasks u = p := by
    intro u p hu hp
    rw [tasks_move] at hu
    by_cases hut : u = t
    · exact absurd ((if_pos hut).symm.trans hu).symm hp
    · exact (if_neg hut).symm.trans hu
  exact
    { connected := fun hup => absurd (hdown.symm.trans hup) Bool.false_ne_true
      storing := fun u hu => absurd (.inr (.inl (htasks u _ hu (by simp)))) (hwriting u)
      serves := by
        rintro u (hu | hu | hu)
        · exact absurd (htasks u _ hu (by simp)) (hnobody u)
        · exact absurd (.inr (.inr (htasks u _ hu (by simp)))) (hwriting u)
        · exact absurd (htasks u _ hu (by simp)) (hreading u)
      panicked := fun u hu => hs.panicked u (htasks u _ hu (by simp)) }

/-- **A safe step serves every task.** -/
theorem ServeInv.step (hl : s.LockInv) (hm : s.MarksInv) (hs : s.ServeInv) (hsafe : s.Safe a)
    (h : s.step a = some s') : s'.ServeInv := by
  have heffect := effect_of_step h
  cases a with
  | getConnection t =>
    obtain ⟨ht, rfl⟩ := heffect
    exact hs.goOn_of_same t (by simp +contextual) rfl rfl (by simp +contextual) hs.connected
      (by simp) (by simp) (by simp)
  | loadConnected t =>
    obtain ⟨ht, rfl⟩ := heffect
    refine hs.goOn_of_same t (by simp +contextual) rfl rfl (fun _ _ => rfl) hs.connected ?_ ?_ ?_
    · cases s.connected <;> simp
    · intro hread
      -- the flag is up, so the slot has a connection that is not marked, now or before
      have hup : s.connected = true := by
        cases hdown : s.connected with
        | true => rfl
        | false => simp [hdown] at hread
      obtain ⟨conn, hconn, hgood⟩ := hs.connected hup
      exact ⟨conn, hconn, fun hmem => hgood (hm t hmem)⟩
    · cases s.connected <;> simp
  | lockRead t =>
    obtain ⟨ht, hlock, rfl⟩ := heffect
    exact hs.goOn_of_same t (by simp +contextual) rfl rfl (fun _ _ => rfl) hs.connected (by simp)
      (fun _ => hs.serves t (.inl ht)) (by simp)
  | lockWrite t =>
    obtain ⟨ht, hlock, rfl⟩ := heffect
    exact hs.moves t (.inr (.inl rfl)) rfl rfl rfl rfl rfl
  | reconnect t healthy =>
    obtain ⟨ht, ⟨hconn, rfl⟩ | ⟨hconn, rfl⟩ | ⟨hconn, rfl⟩⟩ := heffect
    · exact hs.goOn_of_same t (by simp +contextual) rfl rfl (fun _ _ => rfl) hs.connected
        (fun _ => hconn) (by simp) (by simp)
    · -- the slot was empty, so the flag was down and nobody was served
      refine hs.goOn t (by simp +contextual) (fun _ => rfl) (fun u _ hserved => ?_) (fun hup => ?_)
        (fun _ => rfl) (by simp) (by simp)
      · obtain ⟨conn, hmem, -⟩ := hserved
        exact absurd (hconn ▸ hmem) (Option.not_mem_none conn)
      · obtain ⟨conn, hmem, -⟩ := hs.connected hup
        exact absurd (hconn ▸ hmem) (Option.not_mem_none conn)
    · exact hs.moves t (.inl rfl) rfl rfl rfl rfl rfl
  | storeConnected t =>
    obtain ⟨ht, rfl⟩ := heffect
    obtain ⟨conn, hconn⟩ := Option.isSome_iff_exists.mp (hs.storing t ht)
    have hgood : conn ∉ s.marked := hsafe conn hconn
    exact hs.goOn_of_same t (by simp +contextual) rfl rfl (fun _ _ => rfl)
      (fun _ => ⟨conn, hconn, hgood⟩) (by simp)
      (fun _ => ⟨conn, hconn, fun hmem => hgood (hm t hmem)⟩) (by simp)
  | unlockWrite t =>
    obtain ⟨ht, rfl⟩ := heffect
    exact hs.goOn_of_same t (by simp +contextual) rfl rfl (fun _ _ => rfl) hs.connected (by simp)
      (fun _ => hs.serves t (.inr (.inl ht))) (by simp)
  | useGuard t =>
    obtain ⟨ht, ⟨hconn, rfl⟩ | ⟨conn, hconn, rfl⟩⟩ := heffect
    · obtain ⟨conn, hmem, -⟩ := hs.serves t (.inr (.inr ht))
      exact absurd (hconn ▸ hmem) (Option.not_mem_none conn)
    · exact hs.moves t (.inr (.inr ⟨conn, rfl⟩)) rfl rfl rfl rfl rfl
  | queryDone t =>
    obtain ⟨conn, ht, rfl⟩ := heffect
    exact hs.moves t (.inl rfl) rfl rfl rfl rfl rfl
  | markDisconnected t =>
    obtain ⟨conn, ht, rfl⟩ := heffect
    exact hs.goOn t (by simp +contextual) id (fun _ _ => id)
      (fun hup => absurd hup Bool.false_ne_true) (by simp) (by simp) (by simp)
  | tryWrite t =>
    obtain ⟨conn, ht, ⟨hlock, rfl⟩ | ⟨hlock, rfl⟩⟩ := heffect
    · obtain ⟨hdown, hnobody⟩ := hsafe hlock
      exact hs.empties hl hlock hdown hnobody t
    · exact hs.moves t (.inl rfl) rfl rfl rfl rfl rfl
  | cancel t =>
    obtain ⟨ht, rfl⟩ := heffect
    exact hs.moves t (.inl rfl) rfl rfl rfl rfl rfl

/-! ## Runs -/

open Run

omit [DecidableEq τ] in
@[simp] theorem tasks_new : (new : ReconnectingSurreal τ).tasks t = .idle := rfl

omit [DecidableEq τ] in
theorem lockInv_new : (new : ReconnectingSurreal τ).LockInv where
  readers t := iff_of_false (Finset.notMem_empty t) (by simp)
  writer t := iff_of_false (Option.some_ne_none t).symm (by simp)
  exclusive := .inl rfl

omit [DecidableEq τ] in
theorem marksInv_new : (new : ReconnectingSurreal τ).MarksInv := fun _ => Finset.Subset.refl _

omit [DecidableEq τ] in
theorem serveInv_new : (new : ReconnectingSurreal τ).ServeInv where
  connected _ := ⟨0, rfl, Finset.notMem_empty 0⟩
  storing t h := rfl
  serves t _ := ⟨0, rfl, Finset.notMem_empty 0⟩
  panicked t := by simp

omit [DecidableEq τ] in
/-- **Who is served**, where the invariants hold. -/
theorem ServeInv.servesAll (hs : s.ServeInv) : s.ServesAll := fun t =>
  ⟨fun ht => hs.serves t (.inr (.inr ht)), hs.panicked t⟩

/-- **After a step that is not safe, one task on its own can be served wrongly.** -/
theorem exists_not_servesAll (h : s.step a = some s') (hnotsafe : ¬ s.Safe a) :
    ∃ rest s'', follow step s' rest = some s'' ∧ ¬ s''.ServesAll := by
  have heffect := effect_of_step h
  cases a with
  | tryWrite t =>
    obtain ⟨conn, ht, hlock⟩ := heffect
    obtain ⟨hunlocked, hsafe⟩ := Classical.not_imp.mp hnotsafe
    obtain ⟨-, rfl⟩ | ⟨hlocked, -⟩ := hlock
    · by_cases hup : s.connected = true
      · -- the flag is up over an empty slot, and the task itself calls next
        refine ⟨[.getConnection t, .loadConnected t, .lockRead t], _,
          by simp [follow, step, hup, hunlocked.1]; rfl, fun hall => ?_⟩
        obtain ⟨conn, hconn, -⟩ := (hall t).1 (by simp)
        exact absurd hconn (Option.not_mem_none conn)
      · -- a task that saw the flag up gets the lock next
        obtain ⟨u, hu⟩ : ∃ u, s.tasks u = .awaitingRead := by
          by_contra hnone
          exact hsafe ⟨eq_false_of_ne_true hup, not_exists.mp hnone⟩
        have hut : u ≠ t := fun h => by simp [h, ht] at hu
        refine ⟨[.lockRead u], _, by simp [follow, step, hu, hut, hunlocked.1]; rfl,
          fun hall => ?_⟩
        obtain ⟨conn, hconn, -⟩ := (hall u).1 (by simp)
        exact absurd hconn (Option.not_mem_none conn)
    · exact absurd hunlocked hlocked
  | storeConnected t =>
    obtain ⟨ht, rfl⟩ := heffect
    obtain ⟨conn, hconn⟩ := not_forall.mp hnotsafe
    obtain ⟨hheld, hmarked⟩ := Classical.not_imp.mp hconn
    -- the task lets go of the lock, uses the connection, and calls again
    refine ⟨[.unlockWrite t, .lockRead t, .useGuard t, .queryDone t, .getConnection t,
      .loadConnected t, .lockRead t], _, by simp [follow, step, Option.mem_def.mp hheld]; rfl,
      fun hall => ?_⟩
    obtain ⟨conn', hconn', hgood⟩ := (hall t).1 (by simp)
    obtain rfl : conn = conn' := Option.some.inj hconn'
    exact hgood (by simpa using hmarked)
  | _ => exact absurd trivial hnotsafe

/-- **What is handed out is a connection that was not marked, if every step is safe**; and
after any step that is not, a task can be handed out something else. -/
theorem servesAll_of_safe :
    (∀ schedule : List (SinkAction τ), EachStep step Safe new schedule →
      Always step ServesAll new schedule)
    ∧ ∀ (s s' : ReconnectingSurreal τ) (a : SinkAction τ), s.step a = some s' → ¬ s.Safe a →
      ∃ rest s'', follow step s' rest = some s'' ∧ ¬ s''.ServesAll := by
  constructor
  · intro schedule hsafe
    exact hsafe.always (I := fun s => s.LockInv ∧ s.MarksInv ∧ s.ServeInv)
      (fun s a s' ⟨hl, hm, hs⟩ hsafe h => ⟨hl.step h, hm.step h, hs.step hl hm hsafe h⟩)
      (fun s hs => hs.2.2.servesAll) ⟨lockInv_new, marksInv_new, serveInv_new⟩
  · intro s s' a h hnotsafe
    exact exists_not_servesAll h hnotsafe

section Races

/-- A query of one task fails, and the next call connects again. -/
def reconnection : List (SinkAction Bool) :=
  [.getConnection false, .loadConnected false, .lockRead false, .useGuard false,
    .markDisconnected false, .tryWrite false, .getConnection true, .loadConnected true,
    .lockWrite true, .reconnect true true, .storeConnected true, .unlockWrite true,
    .lockRead true, .useGuard true, .queryDone true]

/-- Another task saw the flag up before the slot was emptied. -/
def emptySlot : List (SinkAction Bool) :=
  [.getConnection false, .loadConnected false, .lockRead false, .useGuard false,
    .getConnection true, .loadConnected true, .markDisconnected false, .tryWrite false,
    .lockRead true, .useGuard true]

/-- Another task reads while the slot is to be emptied. -/
def contendedLock : List (SinkAction Bool) :=
  [.getConnection false, .loadConnected false, .lockRead false, .useGuard false,
    .getConnection true, .loadConnected true, .lockRead true, .markDisconnected false,
    .tryWrite false, .useGuard true, .getConnection false, .loadConnected false,
    .lockWrite false, .reconnect false true, .storeConnected false, .unlockWrite false,
    .lockRead false]

instance [Fintype τ] (s : ReconnectingSurreal τ) : ∀ a, Decidable (s.Safe a)
  | .tryWrite _ => inferInstanceAs (Decidable (_ → _))
  | .storeConnected _ => inferInstanceAs (Decidable (∀ conn ∈ s.connection, conn ∉ s.marked))
  | .getConnection _ | .loadConnected _ | .lockRead _ | .lockWrite _ | .reconnect _ _
  | .unlockWrite _ | .useGuard _ | .queryDone _ | .markDisconnected _ | .cancel _ =>
    .isTrue trivial

/-- The conditions hold where a task marks the connection alone. -/
theorem servesAll_of_safe_reconnection : (follow step new reconnection).isSome
    ∧ Always step ServesAll new reconnection :=
  ⟨by decide, servesAll_of_safe.1 reconnection (by decide)⟩

/-- A task is handed out an empty slot, and panics; another one is handed out the connection
that it has marked itself before. -/
theorem races_not_servesAll : ¬ Always step ServesAll new emptySlot
    ∧ ¬ Always step ServesAll new contendedLock := by
  constructor
  · intro h
    exact ((h.of_follow rfl) true).2 rfl
  · intro h
    obtain ⟨conn, hconn, hgood⟩ := ((h.of_follow rfl) false).1 rfl
    obtain rfl : 0 = conn := Option.some.inj hconn
    exact hgood (by decide)

end Races

end ReconnectingSurreal
