import IntuitionCore.Library.Feed
import IntuitionCore.Projections.Config

/-!
# Workers

A worker drives one projection through the event store. It reads its
checkpoint, reads the batch of events after it, applies the batch in one
transaction, and saves the number of the last event as its checkpoint. The
transaction and the checkpoint are two writes, so a batch may be applied and
its checkpoint not saved; it is then applied again.
-/

/-! ## Checkpoints -/

structure Checkpoint where
  lastSequenceNumber : ℕ
  lastBlockNumber : ℕ
  deriving DecidableEq, Repr

/-- The table `projection_checkpoints`, by the names of projection and sink. -/
abbrev CheckpointStore := Table (String × String) Checkpoint

namespace CheckpointStore

/-- The number of the last event that was processed, or zero. -/
def getCheckpoint (store : CheckpointStore) (projectionName sinkName : String) : ℕ :=
  ((store.lookup (projectionName, sinkName)).map Checkpoint.lastSequenceNumber).getD 0

/-- Save a checkpoint, whatever is there. -/
def saveCheckpoint (store : CheckpointStore) (projectionName sinkName : String)
    (sequenceNumber blockNumber : ℕ) : CheckpointStore :=
  store.upsert (projectionName, sinkName) fun _ => ⟨sequenceNumber, blockNumber⟩

/-- **Saving a checkpoint moves the one of its key only.** -/
theorem getCheckpoint_saveCheckpoint_key (store : CheckpointStore) (name sink : String)
    (seq block : ℕ) (key : String × String) :
    getCheckpoint (saveCheckpoint store name sink seq block) key.1 key.2
      = if key = (name, sink) then seq else getCheckpoint store key.1 key.2 := by
  unfold getCheckpoint saveCheckpoint
  rw [Table.lookup_upsert]
  by_cases h : key = (name, sink)
  · rw [if_pos h, if_pos h]
    rfl
  · rw [if_neg h, if_neg h]

/-- Saving a checkpoint moves the one of its worker only. -/
theorem getCheckpoint_saveCheckpoint (store : CheckpointStore) (name name' : String)
    (seq block : ℕ) :
    getCheckpoint (saveCheckpoint store name "pg" seq block) name' "pg"
      = if name' = name then seq else getCheckpoint store name' "pg" :=
  (getCheckpoint_saveCheckpoint_key store name "pg" seq block (name', "pg")).trans
    (if_congr (by simp) rfl rfl)

end CheckpointStore

/-! ## Reading events -/

namespace EventReader

/-- Whether an event is canonical and of one of some types. -/
def wants (eventTypes : List String) (e : StoredEvent) : Bool :=
  eventTypes.contains e.eventType && e.isCanonical

/-- The canonical events of some types after a number, in order, at most a
number of them. -/
def readBatchMulti (eventStore : List StoredEvent) (eventTypes : List String)
    (afterSequence batchSize : ℕ) : List StoredEvent :=
  ((eventStore.filter fun e =>
      eventTypes.contains e.eventType && afterSequence < e.sequenceNumber
        && e.isCanonical).mergeSort
    fun a b => a.sequenceNumber ≤ b.sequenceNumber).take batchSize

/-- A batch of an event store that is in order is a poll of it. -/
theorem readBatchMulti_eq_poll {eventStore : List StoredEvent} (eventTypes : List String)
    (afterSequence batchSize : ℕ) (h : Feed.InOrder StoredEvent.sequenceNumber eventStore) :
    readBatchMulti eventStore eventTypes afterSequence batchSize
      = Feed.poll StoredEvent.sequenceNumber (wants eventTypes) afterSequence batchSize
          eventStore := by
  unfold readBatchMulti Feed.poll Feed.after
  rw [List.mergeSort_of_pairwise, List.filter_filter]
  · congr 1
    refine List.filter_congr fun e _ => ?_
    unfold wants
    cases eventTypes.contains e.eventType <;> simp
  · exact (h.filter _).imp fun hab => decide_eq_true (le_of_lt hab)

variable {eventStore : List StoredEvent} {eventTypes : List String} {afterSequence batchSize : ℕ}
  {e last : StoredEvent}

/-- A batch has wanted events after the number only. -/
theorem mem_of_mem_readBatchMulti
    (h : e ∈ readBatchMulti eventStore eventTypes afterSequence batchSize) :
    e ∈ eventStore ∧ wants eventTypes e = true ∧ afterSequence < e.sequenceNumber := by
  have hmem := List.mem_of_mem_take h
  rw [List.mem_mergeSort, List.mem_filter] at hmem
  unfold wants
  simpa [and_assoc, and_comm, and_left_comm] using hmem

/-- **A batch leaves out none of the wanted events up to its last one.** -/
theorem mem_readBatchMulti_of_le_getLast
    (hdistinct : ∀ e ∈ eventStore, ∀ f ∈ eventStore, e.sequenceNumber = f.sequenceNumber → e = f)
    (he : e ∈ eventStore) (hwants : wants eventTypes e = true)
    (hlt : afterSequence < e.sequenceNumber)
    (hlast : last ∈ (readBatchMulti eventStore eventTypes afterSequence batchSize).getLast?)
    (hle : e.sequenceNumber ≤ last.sequenceNumber) :
    e ∈ readBatchMulti eventStore eventTypes afterSequence batchSize := by
  have hlast' := List.mem_of_mem_getLast? hlast
  unfold readBatchMulti at hlast' ⊢
  set l := (eventStore.filter fun e =>
    eventTypes.contains e.eventType && afterSequence < e.sequenceNumber && e.isCanonical).mergeSort
      fun a b => a.sequenceNumber ≤ b.sequenceNumber with hl
  have hsorted : (l.take batchSize ++ l.drop batchSize).Pairwise
      fun a b => a.sequenceNumber ≤ b.sequenceNumber := by
    rw [List.take_append_drop]
    exact List.pairwise_mergeSort' (Order.Preimage StoredEvent.sequenceNumber (· ≤ ·)) _
  have hmem : e ∈ l.take batchSize ++ l.drop batchSize := by
    rw [List.take_append_drop, hl, List.mem_mergeSort, List.mem_filter]
    unfold wants at hwants
    simpa [he, hlt] using hwants
  obtain h | h := List.mem_append.mp hmem
  · exact h
  · -- past the end of the batch, its number can only be that of the last event
    have hge := (List.pairwise_append.mp hsorted).2.2 last hlast' e h
    have hlast_store := (mem_of_mem_readBatchMulti (List.mem_of_mem_getLast? hlast)).1
    rw [hdistinct e he last hlast_store (le_antisymm hle hge)]
    exact hlast'

/-- **What lies up to the end of a batch** lies up to where it begins, or is in
it. -/
theorem le_getLast_iff_mem_readBatchMulti
    (hord : Feed.InOrder StoredEvent.sequenceNumber eventStore)
    (hne : readBatchMulti eventStore eventTypes afterSequence batchSize ≠ [])
    (he : e ∈ eventStore) (hwants : wants eventTypes e = true) :
    e.sequenceNumber
        ≤ ((readBatchMulti eventStore eventTypes afterSequence batchSize).getLast
          hne).sequenceNumber
      ↔ e.sequenceNumber ≤ afterSequence
        ∨ e ∈ readBatchMulti eventStore eventTypes afterSequence batchSize := by
  constructor
  · intro hle
    refine or_iff_not_imp_left.mpr fun hlt => ?_
    exact mem_readBatchMulti_of_le_getLast (fun e he f hf => hord.eq_of_pos_eq he hf) he hwants
      (Nat.not_le.mp hlt) (List.getLast?_eq_some_getLast hne) hle
  · rintro (hle | hmem)
    · exact hle.trans (mem_of_mem_readBatchMulti (List.getLast_mem hne)).2.2.le
    · have hbatch : Feed.InOrder StoredEvent.sequenceNumber
          (readBatchMulti eventStore eventTypes afterSequence batchSize) := by
        rw [readBatchMulti_eq_poll _ _ _ hord]
        exact ((hord.filter _).filter _).sublist (List.take_sublist _ _)
      exact hbatch.le_getLast hne hmem

end EventReader

/-! ## The process -/

/-- What a process works on: the events, both databases, and the checkpoints. -/
structure Service where
  /-- The table `event_store`, in the order in which its rows became visible. -/
  eventStore : List StoredEvent
  stores : Stores := {}
  checkpoints : CheckpointStore := ∅

/-- A worker of a projection. -/
structure PgWorker where
  projection : PgProjection
  batchSize : ℕ

/-- Parse the events of a batch; none is dropped. -/
def parseBatchOnce (batch : List StoredEvent) : List ParsedEvent :=
  batch.map ParsedEvent.parseOrUnknown

/-- The numbers a batch's checkpoint is saved with: those of its last event. -/
def resolveCheckpointTarget (batch : List StoredEvent) : Option (ℕ × ℕ) :=
  batch.getLast?.map fun last => (last.sequenceNumber, last.blockNumber)

namespace PgWorker

variable (ext : Externals) (w : PgWorker)

/-- The names of the types a worker reads. -/
def eventTypeStrs : List String := w.projection.eventTypes.map EventType.asStr

/-- The checkpoint of a worker. -/
def checkpoint (s : Service) : ℕ :=
  s.checkpoints.getCheckpoint w.projection.checkpointName "pg"

/-- The batch a worker would read now. -/
def readBatch (s : Service) : List StoredEvent :=
  EventReader.readBatchMulti s.eventStore w.eventTypeStrs (w.checkpoint s) w.batchSize

/-- Apply a batch in one transaction. -/
def applyBatch (s : Service) (batch : List StoredEvent) : Except ProjectionError Service := do
  return { s with
    stores := ← w.projection.processParsedBatch ext s.stores (parseBatchOnce batch) }

/-- Save the checkpoint of a batch. -/
def saveCheckpoint (s : Service) (batch : List StoredEvent) : Service :=
  match resolveCheckpointTarget batch with
  | some (newSequence, newBlock) =>
    { s with
      checkpoints := s.checkpoints.saveCheckpoint w.projection.checkpointName "pg" newSequence
        newBlock }
  | none => s

/-- An iteration of the loop in which the batch is applied and its checkpoint is
saved. -/
def Advances (s s' : Service) : Prop :=
  w.readBatch s ≠ [] ∧ ∃ s₁, w.applyBatch ext s (w.readBatch s) = .ok s₁ ∧
    s' = w.saveCheckpoint s₁ (w.readBatch s)

/-- What an iteration does in which the batch is applied and its checkpoint is
saved, where there is a batch that can be applied. -/
def iterate (s : Service) : Option Service :=
  match w.readBatch s with
  | [] => none
  | batch =>
    match w.applyBatch ext s batch with
    | .ok s₁ => some (w.saveCheckpoint s₁ batch)
    | .error _ => none

/-- An iteration of the loop in which the batch is applied and its checkpoint is
not saved. -/
def Replays (s s' : Service) : Prop :=
  w.readBatch s ≠ [] ∧ w.applyBatch ext s (w.readBatch s) = .ok s'

/-- A worker has processed the events of a service when there is none left for
it to read. -/
def Done (s : Service) : Prop :=
  ∀ e ∈ s.eventStore, EventReader.wants w.eventTypeStrs e = true →
    e.sequenceNumber ≤ w.checkpoint s

end PgWorker

/-- What an iteration does: the batch is applied, and the number of its last
event saved. -/
theorem PgWorker.iterate_eq_some {ext : Externals} {w : PgWorker} {s s' : Service}
    (h : w.iterate ext s = some s') :
    s'.eventStore = s.eventStore
      ∧ w.projection.processParsedBatch ext s.stores (parseBatchOnce (w.readBatch s))
        = .ok s'.stores
      ∧ ∃ last ∈ (w.readBatch s).getLast?, ∀ name, s'.checkpoints.getCheckpoint name "pg"
          = if name = w.projection.checkpointName then last.sequenceNumber
            else s.checkpoints.getCheckpoint name "pg" := by
  unfold PgWorker.iterate at h
  cases hbatch : w.readBatch s with
  | nil =>
    rw [hbatch] at h
    cases h
  | cons e es =>
    rw [hbatch] at h
    cases hok : w.applyBatch ext s (e :: es) with
    | error _ =>
      simp only [hok] at h
      cases h
    | ok s₁ =>
      simp only [hok] at h
      cases h
      obtain ⟨pool, hpool, hs₁⟩ := Result.bind_eq_ok.mp hok
      cases hs₁
      refine ⟨rfl, hpool, (e :: es).getLast (List.cons_ne_nil _ _),
        List.getLast?_eq_some_getLast _, fun name => ?_⟩
      unfold PgWorker.saveCheckpoint resolveCheckpointTarget
      rw [List.getLast?_eq_some_getLast (List.cons_ne_nil e es)]
      exact CheckpointStore.getCheckpoint_saveCheckpoint _ _ _ _ _

namespace Service

/-- The event store grows by events with larger numbers. -/
def Grows (s s' : Service) : Prop :=
  ∃ es, Feed.InOrder StoredEvent.sequenceNumber (s.eventStore ++ es) ∧
    (∀ e ∈ es, 0 < e.sequenceNumber) ∧ s' = { s with eventStore := s.eventStore ++ es }

/-- A service that has not started: its events are numbered from one, in order. -/
structure Fresh (s : Service) : Prop where
  inOrder : Feed.InOrder StoredEvent.sequenceNumber s.eventStore
  sequence_pos : ∀ e ∈ s.eventStore, 0 < e.sequenceNumber
  stores_eq : s.stores = {}
  checkpoints_eq : s.checkpoints = ∅

/-- Nothing has processed an event store of one event. -/
theorem fresh_singleton {e : StoredEvent} (hpos : 0 < e.sequenceNumber) :
    ({ eventStore := [e] } : Service).Fresh :=
  ⟨List.pairwise_singleton _ _, by simpa using hpos, rfl, rfl⟩

end Service

/-! ## An event store of one event -/

section OneEvent

variable {ext : Externals} {w : PgWorker} {s s' : Service} {e : StoredEvent}

/-- A worker that finds anything to read in an event store of one event reads
that event. -/
theorem PgWorker.readBatch_singleton (hstore : s.eventStore = [e]) (hsize : 1 ≤ w.batchSize) :
    w.readBatch s
      = if EventReader.wants w.eventTypeStrs e = true ∧ w.checkpoint s < e.sequenceNumber then [e]
        else [] := by
  unfold PgWorker.readBatch EventReader.readBatchMulti EventReader.wants
  rw [hstore, List.filter_singleton]
  obtain ⟨n, hn⟩ : ∃ n, w.batchSize = n + 1 := ⟨_, (Nat.succ_pred_eq_of_pos hsize).symm⟩
  rw [hn]
  cases hcan : e.isCanonical <;> cases htype : w.eventTypeStrs.contains e.eventType <;>
    by_cases hlt : w.checkpoint s < e.sequenceNumber <;> simp [hlt]

/-- What an iteration does on an event store of one event: the event is
processed, and its number saved. -/
theorem PgWorker.Advances.singleton (hstore : s.eventStore = [e]) (hsize : 1 ≤ w.batchSize)
    (h : w.Advances ext s s') :
    s'.eventStore = [e] ∧ w.checkpoint s < e.sequenceNumber
      ∧ (∀ v : PgWorker, v.checkpoint s'
          = if v.projection.checkpointName = w.projection.checkpointName then e.sequenceNumber
            else v.checkpoint s)
      ∧ w.projection.processParsedBatch ext s.stores [ParsedEvent.parseOrUnknown e]
          = .ok s'.stores := by
  obtain ⟨hne, s₁, hok, rfl⟩ := h
  rw [PgWorker.readBatch_singleton hstore hsize] at hne hok ⊢
  by_cases hread : EventReader.wants w.eventTypeStrs e = true ∧ w.checkpoint s < e.sequenceNumber
  · rw [if_pos hread] at hok ⊢
    obtain ⟨pool, hpool, hs₁⟩ := Result.bind_eq_ok.mp hok
    cases hs₁
    exact ⟨hstore, hread.2,
      fun v => CheckpointStore.getCheckpoint_saveCheckpoint _ _ _ _ _, hpool⟩
  · rw [if_neg hread] at hne
    exact absurd rfl hne

/-- Conversely, a worker that wants an event it has not read can process it, if
its projection can. -/
theorem PgWorker.exists_advances (hstore : s.eventStore = [e]) (hsize : 1 ≤ w.batchSize)
    (hwants : EventReader.wants w.eventTypeStrs e = true)
    (hlt : w.checkpoint s < e.sequenceNumber)
    (hok : ∃ pool, w.projection.processParsedBatch ext s.stores [ParsedEvent.parseOrUnknown e]
      = .ok pool) : ∃ s', w.Advances ext s s' := by
  obtain ⟨pool, hpool⟩ := hok
  have hread : w.readBatch s = [e] := by
    rw [PgWorker.readBatch_singleton hstore hsize, if_pos ⟨hwants, hlt⟩]
  refine ⟨_, hread ▸ List.cons_ne_nil e [], { s with stores := pool }, ?_, rfl⟩
  rw [hread]
  exact Result.bind_eq_ok.mpr ⟨pool, hpool, rfl⟩

/-- The same without saving the checkpoint: the event is processed, and will be
read again. -/
theorem PgWorker.exists_replays (hstore : s.eventStore = [e]) (hsize : 1 ≤ w.batchSize)
    (hwants : EventReader.wants w.eventTypeStrs e = true)
    (hlt : w.checkpoint s < e.sequenceNumber)
    (hok : ∃ pool, w.projection.processParsedBatch ext s.stores [ParsedEvent.parseOrUnknown e]
      = .ok pool) :
    ∃ pool, w.Replays ext s { s with stores := pool }
      ∧ w.projection.processParsedBatch ext s.stores [ParsedEvent.parseOrUnknown e] = .ok pool := by
  obtain ⟨pool, hpool⟩ := hok
  have hread : w.readBatch s = [e] := by
    rw [PgWorker.readBatch_singleton hstore hsize, if_pos ⟨hwants, hlt⟩]
  refine ⟨pool, ⟨hread ▸ List.cons_ne_nil e [], ?_⟩, hpool⟩
  rw [hread]
  exact Result.bind_eq_ok.mpr ⟨pool, hpool, rfl⟩

/-- A worker that has processed the one event there is has processed all. -/
theorem PgWorker.Advances.done_singleton (hstore : s.eventStore = [e]) (hsize : 1 ≤ w.batchSize)
    (h : w.Advances ext s s') : w.Done s' := by
  obtain ⟨hstore', -, hckpt, -⟩ := h.singleton hstore hsize
  intro e' he' _
  rw [hstore', List.mem_singleton] at he'
  rw [he', hckpt w, if_pos rfl]

/-- A deposit of ten assets for ten shares. -/
def firstDepositData : DepositedRecord where
  sender := "0xa"
  receiver := "0xa"
  termId := "0x07"
  curveId := ⟨1, 0⟩
  assets := ⟨10, 0⟩
  assetsAfterFees := ⟨10, 0⟩
  shares := ⟨10, 0⟩
  totalShares := ⟨10, 0⟩
  vaultType := 0

/-- The first event there is, a deposit. -/
def firstDeposit : StoredEvent where
  sequenceNumber := 1
  blockNumber := 100
  transactionHash := "0xtx"
  eventType := "Deposited"
  eventData := { deposited := some firstDepositData }

theorem val_ten : (⟨10, 0⟩ : BigDecimal).val = 10 := by decide +kernel

end OneEvent
