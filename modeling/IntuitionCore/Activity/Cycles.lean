import IntuitionCore.Activity.Repo
import IntuitionCore.Leaderboard.MarkerBatches
import IntuitionCore.Library.Run

/-!
# Activity cycles

As long as the backfill is not complete, a cycle of the activity profiles aggregates
one day after the other. After that it drains the accounts that are marked, in a
transaction of its own, and then computes the row of the current day and the profile
of each of them, in one transaction for each chunk. Any statement may fail, and so
may the process between two of them; the transaction that is open is then rolled
back, and the worker begins another cycle later.

Here each statement is a step of its own, and any number of cycles run at once. A
statement sees what was committed before, and what its own transaction wrote. A row
that an open transaction wrote or deleted is locked, and a statement that would write
it waits. A `DELETE` may miss rows that were committed after it began. The time of a
transaction is that of its beginning.

What a cycle does after the chunks is of other tables and columns. It is part of the
step that finishes, or fails.
-/

open UserActivityRepo ActivityMarkerProjection

/-- A statement of a chunk. -/
inductive ChunkStatement where
  | rollup (accountId : String)
  | profile (accountId : String)
  deriving DecidableEq, Repr

/-- A row that was computed, and the events that were there. Nothing reads these. -/
structure ComputedRollup where
  row : DailyRollup
  present : List ParsedEvent

/-- The open transaction of a chunk. -/
structure OpenChunk where
  now : ℤ
  accounts : List String
  /-- The statements that are left. -/
  todo : List ChunkStatement
  /-- What was written so far. -/
  rollups : List ComputedRollup := []
  profiles : List (String × ActivityProfile) := []
  /-- The accounts after the chunk. -/
  rest : List String

/-- Where a cycle is. -/
inductive ActivityPhase where
  /-- It is to drain the marked accounts. -/
  | draining
  /-- The drain is open, and has deleted these accounts. -/
  | drained (accounts : Finset String)
  /-- These accounts are left, and no transaction is open. -/
  | recomputing (remaining : List String)
  | chunk (c : OpenChunk)
  /-- It is to find the first day to aggregate. -/
  | planning (lastDay : Option ℤ)
  | aggregating (day today : ℤ)
  /-- A day was aggregated; nothing reads the events that were there. -/
  | writing (day today : ℤ) (rollups : List DailyRollup) (present : List ParsedEvent)
  | checkpointing (day today : ℤ)
  | completing (lastDay : Option ℤ)

/-- A cycle that is running. Nothing reads the marks that it drained. -/
structure ActivityCycle where
  phase : ActivityPhase
  marks : Finset (String × ParsedEvent) := ∅

namespace ActivityCycle

/-- The accounts that an open drain has deleted. -/
def deletedAccounts (c : ActivityCycle) : Finset String :=
  match c.phase with
  | .drained accounts => accounts
  | _ => ∅

/-- The rows of days that an open transaction has written. -/
def writtenRollups (c : ActivityCycle) : Finset (String × ℤ) :=
  match c.phase with
  | .chunk c => (c.rollups.map fun r => r.row.key).toFinset
  | _ => ∅

/-- The profiles that an open transaction has written. -/
def writtenProfiles (c : ActivityCycle) : Finset String :=
  match c.phase with
  | .chunk c => (c.profiles.map Prod.fst).toFinset
  | _ => ∅

end ActivityCycle

/-- A transaction that was committed: events were marked, or profiles computed. -/
inductive ActivityCommit where
  | marked (events : List ParsedEvent)
  | recomputed (accounts : List String)
  deriving DecidableEq, Repr

/-- The tables, the cycles that are running, and what became of the marks. -/
structure ActivityCycles where
  /-- The typed event tables. -/
  events : List ParsedEvent := []
  db : ActivityDb := {}
  daily : Table (String × ℤ) DailyRollup := ∅
  profiles : Table String ActivityProfile := ∅
  backfill : BackfillState := {}
  cycles : Table ℕ ActivityCycle := ∅
  /-- The transactions of markers and of chunks, the last one first. Nothing reads
  them, nor what follows. -/
  commits : List ActivityCommit := []
  /-- The events that were there when a row was computed. -/
  present : Table (String × ℤ) (List ParsedEvent) := ∅
  /-- The accounts that are marked, each with the events it is marked for. -/
  pending : Finset (String × ParsedEvent) := ∅
  /-- Those whose mark was drained by a cycle that finished. -/
  settled : Finset (String × ParsedEvent) := ∅

namespace ActivityCycles

/-- Micro-batch size of the recompute. -/
def profileBatchSize : ℕ := 100

/-- A statement, the commit of a transaction, or a failure. -/
inductive Action where
  /-- Events are stored. -/
  | ingest (events : List ParsedEvent)
  /-- A batch of the marker is committed. -/
  | mark (events : List ParsedEvent)
  /-- A cycle reads the state of the backfill. -/
  | begin (i : ℕ)
  | drain (i : ℕ) (seen : Finset String)
  /-- The drain is committed; the accounts come in some order. -/
  | commitDrain (i : ℕ) (order : List String)
  | beginChunk (i : ℕ) (now : ℤ)
  /-- The next statement of a chunk. -/
  | execute (i : ℕ)
  | commitChunk (i : ℕ)
  | finish (i : ℕ)
  | planBackfill (i : ℕ) (now : ℤ)
  | aggregate (i : ℕ)
  | writeRollups (i : ℕ)
  | checkpoint (i : ℕ)
  | complete (i : ℕ)
  /-- A statement of the cycle fails, or its process does. -/
  | fail (i : ℕ)

variable (s : ActivityCycles)

/-- A cycle comes to be somewhere, or is over. -/
def setCycle (i : ℕ) (c : Option ActivityCycle) : ActivityCycles :=
  { s with cycles := s.cycles.alter i fun _ => c }

/-- A running cycle goes on. -/
def setPhase (i : ℕ) (c : ActivityCycle) (phase : ActivityPhase) : ActivityCycles :=
  s.setCycle i (some { c with phase })

/-- What the transactions that are open have of something. -/
def locked {α : Type} [DecidableEq α] (f : ActivityCycle → Finset α) : Finset α :=
  s.cycles.keys.biUnion fun i => (s.cycles.lookup i).elim ∅ f

/-- What the drained accounts leave in the dirty set. -/
def deleteDirtyAccounts (db : ActivityDb) (accounts : Finset String) : ActivityDb :=
  { db with dirtyAccountActivity := db.dirtyAccountActivity.deleteRows fun k _ => k ∈ accounts }

/-- The statements of a chunk. -/
def chunkStatements (accounts : List String) : List ChunkStatement :=
  accounts.flatMap fun a => [.rollup a, .profile a]

/-- The rows of days as the transaction of a chunk sees them. -/
def writeRows (daily : Table (String × ℤ) DailyRollup) (rows : List DailyRollup) :
    Table (String × ℤ) DailyRollup :=
  rows.foldl upsertDailyRollup daily

/-- Rows are written, each with the events that were there. -/
def write (rows : List ComputedRollup) : ActivityCycles :=
  { s with
    daily := writeRows s.daily (rows.map ComputedRollup.row)
    present := rows.foldl (fun t r => t.upsert r.row.key fun _ => r.present) s.present }

/-- The next statement of a chunk, if no row it writes is locked. -/
def executeStatement (c : OpenChunk) : Option OpenChunk :=
  match c.todo with
  | .rollup a :: todo =>
    let row := todayRollup s.events a (utcDay c.now)
    if row.key ∉ s.locked ActivityCycle.writtenRollups then
      some { c with todo, rollups := c.rollups ++ [⟨row, s.events⟩] }
    else none
  | .profile a :: todo =>
    if a ∉ s.locked ActivityCycle.writtenProfiles then
      let daily := writeRows s.daily (c.rollups.map ComputedRollup.row)
      some { c with todo, profiles := c.profiles ++ [(a, activityProfile daily s.events a c.now)] }
    else none
  | [] => none

/-- The loop over the days, at a day. -/
def backfillFrom (day today : ℤ) : ActivityPhase :=
  if day ≤ today then .aggregating day today else .completing (some today)

/-- Where the backfill begins. -/
def planBackfill (lastDay : Option ℤ) (now : ℤ) : ActivityPhase :=
  match firstEventDay s.events, lastDay with
  | none, _ => .completing none
  | some first, none => backfillFrom first (utcDay now)
  | some _, some d =>
    match succOpt d with
    | some next => backfillFrom next (utcDay now)
    | none => .completing (some d)

/-- What an action does, where it is possible. The marker reads events that are
stored. -/
def step : Action → Option ActivityCycles
  | .ingest events => some { s with events := s.events ++ events }
  | .mark events =>
    if ∀ e ∈ events, e ∈ s.events
        ∧ Disjoint (touchedAccounts e) (s.locked ActivityCycle.deletedAccounts) then
      some { s with
        db := Transaction.applyAll (events.flatMap statements) s.db
        commits := .marked events :: s.commits
        pending := s.pending
          ∪ events.toFinset.biUnion fun e => (touchedAccounts e).image fun a => (a, e) }
    else none
  | .begin i =>
    match s.cycles.lookup i with
    | none =>
      let phase := if s.backfill.backfillComplete then .draining
        else .planning s.backfill.lastBackfillDay
      some (s.setCycle i (some { phase }))
    | some _ => none
  | .drain i seen =>
    match s.cycles.lookup i with
    | some ⟨.draining, marks⟩ =>
      if seen ⊆ s.db.dirtyAccountActivity.keys
          ∧ Disjoint seen (s.locked ActivityCycle.deletedAccounts) then
        some (s.setPhase i ⟨.draining, marks⟩ (.drained seen))
      else none
    | _ => none
  | .commitDrain i order =>
    match s.cycles.lookup i with
    | some ⟨.drained accounts, _⟩ =>
      if order.Nodup ∧ order.toFinset = accounts then
        some { s.setCycle i (some ⟨.recomputing order,
              s.pending.filter fun m => m.1 ∈ accounts⟩) with
          db := deleteDirtyAccounts s.db accounts
          pending := s.pending.filter fun m => m.1 ∉ accounts }
      else none
    | _ => none
  | .beginChunk i now =>
    match s.cycles.lookup i with
    | some ⟨.recomputing (a :: remaining), marks⟩ =>
      some (s.setCycle i (some ⟨.chunk {
        now
        accounts := (a :: remaining).take profileBatchSize
        todo := chunkStatements ((a :: remaining).take profileBatchSize)
        rest := (a :: remaining).drop profileBatchSize }, marks⟩))
    | _ => none
  | .execute i =>
    match s.cycles.lookup i with
    | some ⟨.chunk c, marks⟩ =>
      (s.executeStatement c).map fun c => s.setCycle i (some ⟨.chunk c, marks⟩)
    | _ => none
  | .commitChunk i =>
    match s.cycles.lookup i with
    | some ⟨.chunk c, marks⟩ =>
      if c.todo.isEmpty then
        some { (s.write c.rollups).setCycle i (some ⟨.recomputing c.rest, marks⟩) with
          profiles := c.profiles.foldl (fun t p => t.upsert p.1 fun _ => p.2) s.profiles
          commits := .recomputed (c.profiles.map Prod.fst) :: s.commits }
      else none
    | _ => none
  | .finish i =>
    match s.cycles.lookup i with
    | some ⟨.recomputing [], marks⟩ =>
      some { s.setCycle i none with settled := s.settled ∪ marks }
    | _ => none
  | .planBackfill i now =>
    match s.cycles.lookup i with
    | some ⟨.planning lastDay, marks⟩ =>
      some (s.setCycle i (some ⟨s.planBackfill lastDay now, marks⟩))
    | _ => none
  | .aggregate i =>
    match s.cycles.lookup i with
    | some ⟨.aggregating day today, marks⟩ =>
      some (s.setCycle i (some ⟨.writing day today (aggregateDay s.events day) s.events, marks⟩))
    | _ => none
  | .writeRollups i =>
    match s.cycles.lookup i with
    | some ⟨.writing day today rollups present, marks⟩ =>
      if ∀ r ∈ rollups, r.key ∉ s.locked ActivityCycle.writtenRollups then
        some ((s.write (rollups.map fun r => ⟨r, present⟩)).setCycle i
          (some ⟨.checkpointing day today, marks⟩))
      else none
    | _ => none
  | .checkpoint i =>
    match s.cycles.lookup i with
    | some ⟨.checkpointing day today, marks⟩ =>
      let phase := match succOpt day with
        | some next => backfillFrom next today
        | none => .completing (some today)
      some { s.setCycle i (some ⟨phase, marks⟩) with
        backfill := saveBackfillState s.backfill false (some day) }
    | _ => none
  | .complete i =>
    match s.cycles.lookup i with
    | some ⟨.completing lastDay, _⟩ =>
      some { s.setCycle i none with backfill := saveBackfillState s.backfill true lastDay }
    | _ => none
  | .fail i =>
    match s.cycles.lookup i with
    | some _ => some (s.setCycle i none)
    | none => none

/-! ## What a step can do -/

variable {s} {s' : ActivityCycles} {i j : ℕ} {a : Action}

/-- The cycles after one came to be somewhere. -/
theorem lookup_setCycle (c : Option ActivityCycle) :
    (s.setCycle i c).cycles.lookup j = if j = i then c else s.cycles.lookup j := by
  rw [show (s.setCycle i c).cycles = s.cycles.alter i fun _ => c from rfl, Table.lookup_alter]

/-- What holds of the cycle that moves and of the others holds of all. -/
theorem forall_setCycle {P : ActivityCycle → Prop} {c : Option ActivityCycle}
    (h : ∀ j c, s.cycles.lookup j = some c → P c) (hc : ∀ d ∈ c, P d) :
    ∀ j d, (s.setCycle i c).cycles.lookup j = some d → P d := by
  intro j d hd
  rw [lookup_setCycle] at hd
  by_cases hji : j = i
  · rw [if_pos hji] at hd
    exact hc d hd
  · rw [if_neg hji] at hd
    exact h j d hd

theorem mem_locked {α : Type} [DecidableEq α] {f : ActivityCycle → Finset α} {x : α} :
    x ∈ s.locked f ↔ ∃ i c, s.cycles.lookup i = some c ∧ x ∈ f c := by
  unfold locked
  simp only [Finset.mem_biUnion, Finmap.mem_keys]
  constructor
  · rintro ⟨i, -, hx⟩
    cases hc : s.cycles.lookup i with
    | none => simp [hc] at hx
    | some c => exact ⟨i, c, hc, by simpa [hc] using hx⟩
  · rintro ⟨i, c, hc, hx⟩
    exact ⟨i, Finmap.mem_of_lookup_eq_some hc, by simpa [hc] using hx⟩

end ActivityCycles

/-- A phase in which no account is left to the cycle, and it has computed nothing that
it is still to write. -/
def ActivityPhase.Idle : ActivityPhase → Prop
  | .recomputing _ | .chunk _ | .writing .. => False
  | _ => True

namespace ActivityCycles

/-- The actions that take a cycle from one idle phase to another. -/
def Action.isQuiet : Action → Bool
  | .begin _ | .drain .. | .planBackfill .. | .checkpoint _ | .complete _ => true
  | _ => false

/-- **What a step can do**, if nothing is said of where idle phases lead. -/
inductive Effect (s : ActivityCycles) : Action → ActivityCycles → Prop
  | ingest (events : List ParsedEvent) :
    Effect s (.ingest events) { s with events := s.events ++ events }
  | mark (events : List ParsedEvent) (hstored : ∀ e ∈ events, e ∈ s.events) :
    Effect s (.mark events)
      { s with
        db := Transaction.applyAll (events.flatMap statements) s.db
        commits := .marked events :: s.commits
        pending := s.pending
          ∪ events.toFinset.biUnion fun e => (touchedAccounts e).image fun a => (a, e) }
  | quiet (a : Action) (i : ℕ) (c : Option ActivityCycle) (backfill : BackfillState)
      (ha : a.isQuiet = true) (hbefore : ∀ d, s.cycles.lookup i = some d → d.phase.Idle)
      (hafter : ∀ d ∈ c, d.phase.Idle) :
    Effect s a { s.setCycle i c with backfill }
  | commitDrain (i : ℕ) (order : List String) (accounts : Finset String)
      (marks : Finset (String × ParsedEvent))
      (hc : s.cycles.lookup i = some ⟨.drained accounts, marks⟩)
      (horder : order.toFinset = accounts) :
    Effect s (.commitDrain i order)
      { s.setCycle i (some ⟨.recomputing order, s.pending.filter fun m => m.1 ∈ accounts⟩) with
        db := deleteDirtyAccounts s.db accounts
        pending := s.pending.filter fun m => m.1 ∉ accounts }
  | beginChunk (i : ℕ) (now : ℤ) (remaining : List String) (marks : Finset (String × ParsedEvent))
      (hc : s.cycles.lookup i = some ⟨.recomputing remaining, marks⟩) :
    Effect s (.beginChunk i now)
      (s.setCycle i (some ⟨.chunk {
        now
        accounts := remaining.take profileBatchSize
        todo := chunkStatements (remaining.take profileBatchSize)
        rest := remaining.drop profileBatchSize }, marks⟩))
  | rollup (i : ℕ) (c : OpenChunk) (marks : Finset (String × ParsedEvent)) (accountId : String)
      (todo : List ChunkStatement) (hc : s.cycles.lookup i = some ⟨.chunk c, marks⟩)
      (htodo : c.todo = .rollup accountId :: todo)
      (hfree : (accountId, utcDay c.now) ∉ s.locked ActivityCycle.writtenRollups) :
    Effect s (.execute i)
      (s.setCycle i (some ⟨.chunk { c with
        todo
        rollups := c.rollups
          ++ [⟨todayRollup s.events accountId (utcDay c.now), s.events⟩] }, marks⟩))
  | profile (i : ℕ) (c : OpenChunk) (marks : Finset (String × ParsedEvent)) (accountId : String)
      (todo : List ChunkStatement) (profile : ActivityProfile)
      (hc : s.cycles.lookup i = some ⟨.chunk c, marks⟩)
      (htodo : c.todo = .profile accountId :: todo) :
    Effect s (.execute i)
      (s.setCycle i (some ⟨.chunk { c with
        todo
        profiles := c.profiles ++ [(accountId, profile)] }, marks⟩))
  | commitChunk (i : ℕ) (c : OpenChunk) (marks : Finset (String × ParsedEvent))
      (profiles : Table String ActivityProfile)
      (hc : s.cycles.lookup i = some ⟨.chunk c, marks⟩) (htodo : c.todo = []) :
    Effect s (.commitChunk i)
      { (s.write c.rollups).setCycle i (some ⟨.recomputing c.rest, marks⟩) with
        profiles
        commits := .recomputed (c.profiles.map Prod.fst) :: s.commits }
  | finish (i : ℕ) (marks : Finset (String × ParsedEvent))
      (hc : s.cycles.lookup i = some ⟨.recomputing [], marks⟩) :
    Effect s (.finish i) { s.setCycle i none with settled := s.settled ∪ marks }
  | aggregate (i : ℕ) (day today : ℤ) (marks : Finset (String × ParsedEvent))
      (hc : s.cycles.lookup i = some ⟨.aggregating day today, marks⟩) :
    Effect s (.aggregate i)
      (s.setCycle i (some ⟨.writing day today (aggregateDay s.events day) s.events, marks⟩))
  | writeRollups (i : ℕ) (day today : ℤ) (rollups : List DailyRollup)
      (present : List ParsedEvent) (marks : Finset (String × ParsedEvent))
      (hc : s.cycles.lookup i = some ⟨.writing day today rollups present, marks⟩)
      (hfree : ∀ r ∈ rollups, r.key ∉ s.locked ActivityCycle.writtenRollups) :
    Effect s (.writeRollups i)
      ((s.write (rollups.map fun r => ⟨r, present⟩)).setCycle i
        (some ⟨.checkpointing day today, marks⟩))
  | fail (i : ℕ) (c : ActivityCycle) (hc : s.cycles.lookup i = some c) :
    Effect s (.fail i) (s.setCycle i none)

variable {s s' : ActivityCycles} {a : Action}

theorem idle_backfillFrom (day today : ℤ) : (backfillFrom day today).Idle := by
  unfold backfillFrom
  split <;> trivial

theorem idle_planBackfill (lastDay : Option ℤ) (now : ℤ) : (s.planBackfill lastDay now).Idle := by
  unfold planBackfill
  split
  · trivial
  · exact idle_backfillFrom _ _
  · split
    · exact idle_backfillFrom _ _
    · trivial

/-- What a cycle is in does not change while nothing happens to it. -/
theorem idle_of_lookup {i : ℕ} {c : ActivityCycle} (hc : s.cycles.lookup i = some c)
    (hidle : c.phase.Idle) (d : ActivityCycle) (hd : s.cycles.lookup i = some d) :
    d.phase.Idle := by
  obtain rfl := Option.some.inj (hc.symm.trans hd)
  exact hidle

/-- A cycle goes on quietly where it is idle before and after. -/
theorem Effect.goOn {i : ℕ} {c c' : ActivityCycle} {backfill : BackfillState}
    (ha : a.isQuiet = true) (hc : s.cycles.lookup i = some c) (hidle : c.phase.Idle)
    (hidle' : c'.phase.Idle) : Effect s a { s.setCycle i (some c') with backfill } :=
  .quiet a i (some c') backfill ha (idle_of_lookup hc hidle) fun _ hd =>
    Option.some.inj hd ▸ hidle'

/-- **Each step has its effect.** -/
theorem effect_of_step (h : s.step a = some s') : Effect s a s' := by
  cases a with
  | ingest events =>
    cases h
    exact .ingest events
  | mark events =>
    obtain ⟨hguard, ⟨⟩⟩ := Option.ite_none_right_eq_some.mp h
    exact .mark events fun e he => (hguard e he).1
  | begin i =>
    simp only [step] at h
    split at h
    case h_1 hc =>
      cases h
      refine .quiet (.begin i) i (some _) s.backfill rfl (fun d hd => ?_) fun d hd => ?_
      · rw [hc] at hd
        cases hd
      · obtain rfl := Option.some.inj hd
        dsimp only
        split <;> trivial
    case h_2 => cases h
  | drain i seen =>
    simp only [step] at h
    split at h
    case h_1 hc =>
      obtain ⟨-, ⟨⟩⟩ := Option.ite_none_right_eq_some.mp h
      exact .goOn rfl hc trivial trivial
    case h_2 => cases h
  | commitDrain i order =>
    simp only [step] at h
    split at h
    case h_1 hc =>
      obtain ⟨⟨-, horder⟩, ⟨⟩⟩ := Option.ite_none_right_eq_some.mp h
      exact .commitDrain i order _ _ hc horder
    case h_2 => cases h
  | beginChunk i now =>
    simp only [step] at h
    split at h
    case h_1 hc =>
      cases h
      exact .beginChunk i now _ _ hc
    case h_2 => cases h
  | execute i =>
    simp only [step] at h
    split at h
    case h_1 c marks hc =>
      obtain ⟨d, hd, rfl⟩ := Option.map_eq_some_iff.mp h
      unfold executeStatement at hd
      split at hd
      case h_1 accountId todo htodo =>
        obtain ⟨hfree, ⟨⟩⟩ := Option.ite_none_right_eq_some.mp hd
        exact .rollup i c marks accountId todo hc htodo hfree
      case h_2 accountId todo htodo =>
        obtain ⟨-, ⟨⟩⟩ := Option.ite_none_right_eq_some.mp hd
        exact .profile i c marks accountId todo _ hc htodo
      case h_3 => cases hd
    case h_2 => cases h
  | commitChunk i =>
    simp only [step] at h
    split at h
    case h_1 c marks hc =>
      obtain ⟨htodo, ⟨⟩⟩ := Option.ite_none_right_eq_some.mp h
      exact .commitChunk i c marks _ hc (List.isEmpty_iff.mp htodo)
    case h_2 => cases h
  | finish i =>
    simp only [step] at h
    split at h
    case h_1 marks hc =>
      cases h
      exact .finish i marks hc
    case h_2 => cases h
  | planBackfill i now =>
    simp only [step] at h
    split at h
    case h_1 lastDay marks hc =>
      cases h
      exact .goOn rfl hc trivial (idle_planBackfill lastDay now)
    case h_2 => cases h
  | aggregate i =>
    simp only [step] at h
    split at h
    case h_1 day today marks hc =>
      cases h
      exact .aggregate i day today marks hc
    case h_2 => cases h
  | writeRollups i =>
    simp only [step] at h
    split at h
    case h_1 day today rollups present marks hc =>
      obtain ⟨hfree, ⟨⟩⟩ := Option.ite_none_right_eq_some.mp h
      exact .writeRollups i day today rollups present marks hc hfree
    case h_2 => cases h
  | checkpoint i =>
    simp only [step] at h
    split at h
    case h_1 day today marks hc =>
      cases h
      refine .goOn rfl hc trivial ?_
      dsimp only
      split
      · exact idle_backfillFrom _ _
      · trivial
    case h_2 => cases h
  | complete i =>
    simp only [step] at h
    split at h
    case h_1 lastDay marks hc =>
      cases h
      exact .quiet (.complete i) i none _ rfl (idle_of_lookup hc trivial) nofun
    case h_2 => cases h
  | fail i =>
    simp only [step] at h
    split at h
    case h_1 c hc =>
      cases h
      exact .fail i c hc
    case h_2 => cases h

end ActivityCycles
