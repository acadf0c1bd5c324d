import IntuitionCore.Ingestion.Storage
import IntuitionCore.Library.Run
import IntuitionCore.Projections.Worker

/-!
# What a worker skips

A worker reads the event store while transactions are open on it. It polls the
visible rows after its checkpoint, processes them, and saves the number of the
last one. A row with a smaller number may become visible after that poll: it
is then at or below the checkpoint, and the worker never reads it.

A schedule skips nothing exactly if no row becomes visible so: none at or below
the checkpoint when its transaction commits, and none at or below the end of a
batch between the poll and the save.
-/

/-- Where a worker is in an iteration of its loop. -/
inductive Phase where
  | idle
  | polled (batch : List StoredEvent)
  | processed (batch : List StoredEvent)
  deriving DecidableEq, Repr

/-- The batch a worker holds. -/
def Phase.batch? : Phase → Option (List StoredEvent)
  | idle => none
  | polled batch => some batch
  | processed batch => some batch

/-- An event store being written, and a worker that reads it. -/
structure Pipeline where
  table : EventTable := {}
  stores : Stores := {}
  checkpoints : CheckpointStore := ∅
  phase : Phase := .idle
  /-- The events of the batches the worker has processed. Nothing reads it. -/
  seen : List StoredEvent := []

namespace Pipeline

/-- A step of a transaction, or of the worker. -/
inductive Action where
  | draws (tx : ℕ)
  | inserts (tx : ℕ) (now : ℤ) (record : EventRecord)
  | commits (tx : ℕ)
  | rollsBack (tx : ℕ)
  | polls
  | processes
  | saves
  | backsOff
  deriving DecidableEq, Repr

/-- What the worker sees of it all. -/
def service (s : Pipeline) : Service := ⟨s.table.rows, s.stores, s.checkpoints⟩

variable (ext : Externals) (w : PgWorker)

/-- The worker reads the batch after its checkpoint; if there is none it
sleeps. -/
def poll (s : Pipeline) : Option Pipeline :=
  match s.phase with
  | .idle =>
    if (w.readBatch s.service).isEmpty then none
    else some { s with phase := .polled (w.readBatch s.service) }
  | _ => none

/-- The worker applies the batch in one transaction. -/
def process (s : Pipeline) : Option Pipeline :=
  match s.phase with
  | .polled batch =>
    match w.applyBatch ext s.service batch with
    | .ok s' =>
      some { s with stores := s'.stores, phase := .processed batch, seen := s.seen ++ batch }
    | .error _ => none
  | _ => none

/-- The worker saves the checkpoint of the batch. -/
def save (s : Pipeline) : Option Pipeline :=
  match s.phase with
  | .processed batch =>
    some { s with
      checkpoints := (w.saveCheckpoint s.service batch).checkpoints
      phase := .idle }
  | _ => none

/-- What an action does, where it is possible. A worker that backs off, or that
is restarted, goes back to its checkpoint. -/
def step (s : Pipeline) : Action → Option Pipeline
  | .draws tx => some { s with table := s.table.draw tx }
  | .inserts tx now record => (s.table.insertRow tx now record).map fun table => { s with table }
  | .commits tx => (s.table.commit tx).map fun table => { s with table }
  | .rollsBack tx => some { s with table := s.table.rollback tx }
  | .polls => s.poll w
  | .processes => s.process ext w
  | .saves => s.save w
  | .backsOff => some { s with phase := .idle }

/-- **No committed event is skipped**: every visible event the worker wants, up
to its checkpoint, was in a batch it has processed. -/
def NoneSkipped (s : Pipeline) : Prop :=
  ∀ e ∈ s.table.rows, EventReader.wants w.eventTypeStrs e = true →
    e.sequenceNumber ≤ w.checkpoint s.service → e ∈ s.seen

/-- **Nothing becomes visible behind the worker**: a transaction commits no
event it wants at or below its checkpoint, and when the checkpoint is saved no
such event up to the last one of the batch is visible that the batch has not. -/
def Safe (s : Pipeline) : Action → Prop
  | .commits tx => ∀ p ∈ s.table.pending, p.transaction = tx →
      EventReader.wants w.eventTypeStrs p.row = true →
        w.checkpoint s.service < p.row.sequenceNumber
  | .saves => ∀ batch, s.phase = .processed batch → ∀ last ∈ batch.getLast?,
      ∀ e ∈ s.table.rows, EventReader.wants w.eventTypeStrs e = true →
        w.checkpoint s.service < e.sequenceNumber → e.sequenceNumber ≤ last.sequenceNumber →
          e ∈ batch
  | _ => True

/-! ## What a worker holds -/

/-- A batch in the hands of the worker: it has a last event, its events are
visible, and it has every event up to the last one that the worker has seen
since its checkpoint. -/
structure Holds (s : Pipeline) (batch : List StoredEvent) : Prop where
  exists_last : ∃ last, last ∈ batch.getLast?
  mem_rows : ∀ e ∈ batch, e ∈ s.table.rows
  mem_of_seen : ∀ last ∈ batch.getLast?, ∀ e ∈ s.seen,
    EventReader.wants w.eventTypeStrs e = true → w.checkpoint s.service < e.sequenceNumber →
      e.sequenceNumber ≤ last.sequenceNumber → e ∈ batch

/-- What is so in every state. -/
structure Ok (s : Pipeline) : Prop where
  numbered : s.table.Numbered
  seen_mem : ∀ e ∈ s.seen, e ∈ s.table.rows
  holds : ∀ batch, s.phase.batch? = some batch → s.Holds w batch
  processed : ∀ batch, s.phase = .processed batch → ∀ e ∈ batch, e ∈ s.seen

variable {ext : Externals} {w : PgWorker} {s s' : Pipeline} {a : Action}

theorem poll_eq_some (h : s.poll w = some s') :
    w.readBatch s.service ≠ [] ∧ s' = { s with phase := .polled (w.readBatch s.service) } := by
  unfold poll at h
  split at h
  · split at h
    · cases h
    · next hempty =>
      cases h
      exact ⟨fun hnil => hempty (List.isEmpty_iff.mpr hnil), rfl⟩
  · cases h

theorem process_eq_some (h : s.process ext w = some s') :
    ∃ batch stores, s.phase = .polled batch
      ∧ s' = { s with stores, phase := .processed batch, seen := s.seen ++ batch } := by
  unfold process at h
  split at h
  · next batch hphase =>
    split at h <;> cases h
    exact ⟨batch, _, hphase, rfl⟩
  · cases h

theorem save_eq_some (h : s.save w = some s') :
    ∃ batch, s.phase = .processed batch ∧ s' = { s with
      checkpoints := (w.saveCheckpoint s.service batch).checkpoints
      phase := .idle } := by
  unfold save at h
  split at h <;> cases h
  next batch hphase => exact ⟨batch, hphase, rfl⟩

theorem ok_start : ({} : Pipeline).Ok w where
  numbered := EventTable.numbered_empty
  seen_mem _ he := absurd he List.not_mem_nil
  holds _ hb := nomatch hb
  processed _ hb := nomatch hb

/-- More visible rows change nothing about the worker. -/
theorem Ok.of_table (h : s.Ok w) {table : EventTable} (hnumbered : table.Numbered)
    (hrows : s.table.rows ⊆ table.rows) : ({ s with table } : Pipeline).Ok w where
  numbered := hnumbered
  seen_mem e he := hrows (h.seen_mem e he)
  holds batch hb :=
    { h.holds batch hb with mem_rows := fun e he => hrows ((h.holds batch hb).mem_rows e he) }
  processed := h.processed

/-- A worker without a batch holds nothing. -/
theorem Ok.idle (h : s.Ok w) {checkpoints : CheckpointStore} :
    ({ s with checkpoints, phase := .idle } : Pipeline).Ok w where
  numbered := h.numbered
  seen_mem := h.seen_mem
  holds _ hb := nomatch hb
  processed _ hb := nomatch hb

/-- A batch that has just been read has everything up to its last event. -/
theorem Ok.holds_readBatch (h : s.Ok w) (hne : w.readBatch s.service ≠ []) {phase : Phase} :
    ({ s with phase } : Pipeline).Holds w (w.readBatch s.service) where
  exists_last := ⟨_, List.getLast_mem_getLast? hne⟩
  mem_rows _ he := (EventReader.mem_of_mem_readBatchMulti he).1
  mem_of_seen _ hlast e he hwants hlt hle :=
    EventReader.mem_readBatchMulti_of_le_getLast (fun _ he _ hf => h.numbered.rows_inj he hf)
      (h.seen_mem e he) hwants hlt hlast hle

/-- **What is so in every state stays so.** -/
theorem Ok.step (h : s.Ok w) (ha : s.step ext w a = some s') : s'.Ok w := by
  cases a with
  | draws tx =>
    cases ha
    exact h.of_table h.numbered.draw (List.Subset.refl _)
  | inserts tx now record =>
    obtain ⟨table, htable, rfl⟩ := Option.map_eq_some_iff.mp ha
    refine h.of_table (h.numbered.insertRow htable) ?_
    obtain ⟨d, -, rfl | rfl⟩ := EventTable.insertRow_eq_some htable <;> exact List.Subset.refl _
  | commits tx =>
    obtain ⟨table, htable, rfl⟩ := Option.map_eq_some_iff.mp ha
    refine h.of_table (h.numbered.commit htable) ?_
    rw [EventTable.commit_eq_some htable]
    exact List.subset_append_left _ _
  | rollsBack tx =>
    cases ha
    exact h.of_table h.numbered.rollback (List.Subset.refl _)
  | polls =>
    obtain ⟨hne, rfl⟩ := poll_eq_some ha
    refine ⟨h.numbered, h.seen_mem, fun batch hb => ?_, fun batch hb => nomatch hb⟩
    cases hb
    exact h.holds_readBatch hne
  | processes =>
    obtain ⟨batch, stores, hphase, rfl⟩ := process_eq_some ha
    have hholds := h.holds batch (hphase ▸ rfl)
    refine ⟨h.numbered, fun e he => ?_, fun b hb => ?_, fun b hb e he => ?_⟩
    · exact (List.mem_append.mp he).elim (h.seen_mem e) (hholds.mem_rows e)
    · cases hb
      refine { hholds with mem_of_seen := fun last hlast e he hwants hlt hle => ?_ }
      exact (List.mem_append.mp he).elim
        (fun hseen => hholds.mem_of_seen last hlast e hseen hwants hlt hle) id
    · cases hb
      exact List.mem_append_right _ he
  | saves =>
    obtain ⟨batch, -, rfl⟩ := save_eq_some ha
    exact h.idle
  | backsOff =>
    cases ha
    exact h.idle

/-! ## What becomes visible behind the worker -/

/-- A commit skips nothing exactly if it commits nothing wanted at or below the
checkpoint: what was not visible was in no batch. -/
theorem noneSkipped_commit_iff (h : s.Ok w) (hs : s.NoneSkipped w) {tx : ℕ} {table : EventTable}
    (hc : s.table.commit tx = some table) :
    ({ s with table } : Pipeline).NoneSkipped w ↔ s.Safe w (.commits tx) := by
  rw [EventTable.commit_eq_some hc]
  constructor
  · intro hs' p hp htx hwants
    refine lt_of_not_ge fun hle =>
      h.numbered.not_mem_rows hp (h.seen_mem _ (hs' p.row ?_ hwants hle))
    refine List.mem_append_right _ (List.mem_map_of_mem (List.mem_filter.mpr ⟨hp, ?_⟩))
    exact beq_iff_eq.mpr htx
  · intro hsafe e he hwants hle
    obtain he | he := List.mem_append.mp he
    · exact hs e he hwants hle
    · obtain ⟨p, hp, rfl⟩ := List.mem_map.mp he
      obtain ⟨hp, htx⟩ := List.mem_filter.mp hp
      exact absurd hle (not_le.mpr (hsafe p hp (beq_iff_eq.mp htx) hwants))

/-- The checkpoint of a batch is the number of its last event. -/
theorem checkpoint_saveCheckpoint {batch : List StoredEvent} {last : StoredEvent}
    (hlast : last ∈ batch.getLast?) :
    w.checkpoint (w.saveCheckpoint s.service batch) = last.sequenceNumber := by
  unfold PgWorker.saveCheckpoint resolveCheckpointTarget
  rw [hlast]
  exact (CheckpointStore.getCheckpoint_saveCheckpoint _ _ _ _ _).trans (if_pos rfl)

/-- A save skips nothing exactly if the batch has every visible event up to its
last one. -/
theorem noneSkipped_save_iff (h : s.Ok w) (hs : s.NoneSkipped w) {batch : List StoredEvent}
    (hphase : s.phase = .processed batch) :
    ({ s with
        checkpoints := (w.saveCheckpoint s.service batch).checkpoints
        phase := .idle } : Pipeline).NoneSkipped w ↔ s.Safe w .saves := by
  have hholds := h.holds batch (hphase ▸ rfl)
  obtain ⟨last, hlast⟩ := hholds.exists_last
  have hckpt : ∀ {s' : Pipeline}, s'.checkpoints = (w.saveCheckpoint s.service batch).checkpoints →
      w.checkpoint s'.service = last.sequenceNumber := fun heq =>
    (congrArg (fun c => CheckpointStore.getCheckpoint c w.projection.checkpointName "pg") heq).trans
      (checkpoint_saveCheckpoint hlast)
  constructor
  · intro hs' b hb last' hlast' e he hwants hlt hle
    obtain rfl : batch = b := Phase.processed.inj (hphase.symm.trans hb)
    obtain rfl : last = last' := Option.some.inj (hlast.symm.trans hlast')
    refine hholds.mem_of_seen last hlast e (hs' e he hwants ?_) hwants hlt hle
    rw [hckpt rfl]
    exact hle
  · intro hsafe e he hwants hle
    rw [hckpt rfl] at hle
    by_cases hold : e.sequenceNumber ≤ w.checkpoint s.service
    · exact hs e he hwants hold
    · exact h.processed batch hphase e
        (hsafe batch hphase last hlast e he hwants (not_le.mp hold) hle)

/-- **A step skips nothing exactly if it is safe.** -/
theorem noneSkipped_step_iff (h : s.Ok w) (hs : s.NoneSkipped w)
    (ha : s.step ext w a = some s') : s'.NoneSkipped w ↔ s.Safe w a := by
  cases a with
  | draws tx | rollsBack tx =>
    cases ha
    exact iff_of_true hs trivial
  | inserts tx now record =>
    obtain ⟨table, htable, rfl⟩ := Option.map_eq_some_iff.mp ha
    obtain ⟨d, -, rfl | rfl⟩ := EventTable.insertRow_eq_some htable <;>
      exact iff_of_true hs trivial
  | commits tx =>
    obtain ⟨table, htable, rfl⟩ := Option.map_eq_some_iff.mp ha
    exact noneSkipped_commit_iff h hs htable
  | polls =>
    obtain ⟨-, rfl⟩ := poll_eq_some ha
    exact iff_of_true hs trivial
  | processes =>
    obtain ⟨batch, stores, -, rfl⟩ := process_eq_some ha
    exact iff_of_true (fun e he hwants hle => List.mem_append_left _ (hs e he hwants hle)) trivial
  | saves =>
    obtain ⟨batch, hphase, rfl⟩ := save_eq_some ha
    exact noneSkipped_save_iff h hs hphase
  | backsOff =>
    cases ha
    exact iff_of_true hs trivial

end Pipeline

/-! ## Schedules -/

section BulkInserts

variable {ext : Externals} {w : PgWorker} {s : Pipeline} {tx : ℕ} {now : ℤ}
  {events : List EventRecord}

/-- A bulk insert is a schedule: each row is numbered and then inserted. -/
theorem follow_bulkInsertEventStore :
    Run.follow (Pipeline.step ext w) s
        (events.flatMap fun record => [.draws tx, .inserts tx now record])
      = (s.table.bulkInsertEventStore tx now events).map fun table => { s with table } := by
  induction events generalizing s with
  | nil => rfl
  | cons record events ih =>
    show Option.bind (((s.table.draw tx).insertRow tx now record).map _)
      (fun s' => Run.follow (Pipeline.step ext w) s' _)
      = Option.map _ (Option.bind ((s.table.draw tx).insertRow tx now record) _)
    cases (s.table.draw tx).insertRow tx now record with
    | none => rfl
    | some table => exact ih

/-- A transaction of events is a schedule: they are inserted in bulk, and the
transaction commits. -/
theorem follow_insertEventsBulk (hne : events ≠ []) :
    Run.follow (Pipeline.step ext w) s
        ((events.flatMap fun record => [.draws tx, .inserts tx now record]) ++ [.commits tx])
      = (s.table.insertEventsBulk tx now events).map fun table => { s with table } := by
  unfold EventTable.insertEventsBulk
  rw [if_neg (mt List.isEmpty_iff.mp hne)]
  unfold Run.follow
  rw [List.foldlM_append]
  show Option.bind (Run.follow (Pipeline.step ext w) s _) _ = _
  rw [follow_bulkInsertEventStore]
  cases s.table.bulkInsertEventStore tx now events with
  | none => rfl
  | some table =>
    show Option.bind ((table.commit tx).map _) _ = Option.map _ (table.commit tx)
    cases table.commit tx <;> rfl

end BulkInserts

/-- **A schedule skips nothing exactly if each of its steps is safe**: whatever
transactions are open at once, in whatever order they commit, and wherever the
worker is. -/
theorem noneSkipped_iff_safe (ext : Externals) (w : PgWorker) (schedule : List Pipeline.Action) :
    Run.Always (Pipeline.step ext w) (Pipeline.NoneSkipped w) {} schedule
      ↔ Run.EachStep (Pipeline.step ext w) (Pipeline.Safe w) {} schedule :=
  Run.always_iff_eachStep (I := Pipeline.Ok w) (fun _ _ _ h ha => h.step ha)
    (fun _ _ _ h hs ha => Pipeline.noneSkipped_step_iff h hs ha) Pipeline.ok_start
    (fun _ he => absurd he List.not_mem_nil) schedule

/-- A deposit in a transaction. -/
def depositIn (transactionHash : String) : EventRecord where
  transactionHash := transactionHash
  eventType := "Deposited"
  eventData := { deposited := some firstDepositData }

/-- The worker of the event log. -/
def logWorker : PgWorker := ⟨.eventLog, 500⟩

/-- **A deposit that is committed behind the checkpoint is skipped**: a second
transaction inserts after the first one and commits before it, and the worker
passes in between. -/
theorem overtaken_deposit_skipped :
    ¬ Run.Always (Pipeline.step .exact logWorker) (Pipeline.NoneSkipped logWorker) {}
      [.draws 1, .inserts 1 0 (depositIn "0x1"), .draws 2, .inserts 2 0 (depositIn "0x2"),
        .commits 2, .polls, .processes, .saves, .commits 1] := by
  let e₁ := (depositIn "0x1").toRow 1 0
  let e₂ := (depositIn "0x2").toRow 2 0
  let table : EventTable := { nextSequence := 3, rows := [e₂], pending := [⟨1, e₁⟩] }
  have hread : logWorker.readBatch (Pipeline.mk table {} ∅ .idle []).service = [e₂] := by
    rw [PgWorker.readBatch_singleton rfl (by decide), if_pos (by decide +kernel)]
  have hpoll : Pipeline.poll logWorker ⟨table, {}, ∅, .idle, []⟩
      = some ⟨table, {}, ∅, .polled [e₂], []⟩ := by
    show (if (logWorker.readBatch _).isEmpty then none else some _) = _
    rw [hread]
    rfl
  intro h
  have hlast := (((((h.2 _ rfl).2 _ rfl).2 _ rfl).2 _ rfl).2 _ rfl).2 _ hpoll
  have hskipped :=
    (((hlast.2 _ rfl).2 _ rfl).2 _ rfl) e₁ (by decide) (by decide) (by decide +kernel)
  exact absurd hskipped (by decide)
