import IntuitionCore.Analytics.EventLog
import IntuitionCore.Analytics.ProtocolStats

/-!
# Facts, signals and statistics

Three workers follow the event store, each with a checkpoint of its own: one writes the
facts, one the signals, one the statistics. A batch and its checkpoint are two writes, so
a batch may be processed and its checkpoint not saved, and it is then processed again.

The facts do not show that. The statistics do: they are added to. And so do the signals:
an insert of a signal asks for nothing to be done on a conflict, but the table has no key
that it could be in conflict with. So what the three tell of the same events agrees exactly
if nothing of it was processed again.
-/

open Relation

/-! ## Signals -/

/-- What a signal is of. -/
inductive SignalType where
  | deposit
  | redemption
  deriving DecidableEq, Repr

/-- A row of `signal`. -/
structure SignalRow where
  eventId : String
  accountId : String
  termId : String
  curveId : String
  signalType : SignalType
  delta : ℚ
  blockNumber : ℕ
  ts : ℤ
  deriving DecidableEq, Repr

namespace SignalsAnalyticsProjection

variable (ext : Externals)

/-- The signal of an event: of a deposit for its receiver, and of a redemption for its
sender. -/
def signalOf : ParsedEvent → Option SignalRow
  | .deposited metadata data =>
    some {
      eventId := metadata.eventId
      accountId := data.receiver
      termId := data.termId
      curveId := ext.toString data.curveId
      signalType := .deposit
      delta := data.assetsAfterFees.val
      blockNumber := metadata.blockNumber
      ts := metadata.blockTimestamp }
  | .redeemed metadata data =>
    some {
      eventId := metadata.eventId
      accountId := data.sender
      termId := data.termId
      curveId := ext.toString data.curveId
      signalType := .redemption
      delta := data.assets.val
      blockNumber := metadata.blockNumber
      ts := metadata.blockTimestamp }
  | _ => none

/-- Append the signal of an event. The table has no key, so there is no conflict. -/
def insertSignalTyped (signal : List SignalRow) (event : ParsedEvent) : List SignalRow :=
  signal ++ (signalOf ext event).toList

def processParsedBatch (signal : List SignalRow) (events : List ParsedEvent) : List SignalRow :=
  events.foldl (insertSignalTyped ext) signal

/-- The signals of an event, of which there is one or none. -/
def signalsOf (event : ParsedEvent) : Multiset SignalRow := (signalOf ext event).toList

/-- **A batch appends the signals of its events.** -/
theorem coe_processParsedBatch (signal : List SignalRow) (events : List ParsedEvent) :
    (processParsedBatch ext signal events : Multiset SignalRow)
      = signal + (events.map (signalsOf ext)).sum := by
  unfold processParsedBatch
  induction events generalizing signal with
  | nil => exact (add_zero _).symm
  | cons event events ih =>
    rw [List.foldl_cons, ih, List.map_cons, List.sum_cons, ← add_assoc]
    rfl

end SignalsAnalyticsProjection

/-! ## The service -/

/-- The three projections. -/
inductive AnalyticsProjection where
  | eventLog
  | signalsAnalytics
  | protocolStats
  deriving DecidableEq, Repr

namespace AnalyticsProjection

/-- The projection a worker runs. -/
def projection : AnalyticsProjection → PgProjection
  | eventLog => .eventLog
  | signalsAnalytics => .signalsAnalytics
  | protocolStats => .protocolStats

/-- The names of the types a worker reads. -/
def eventTypeStrs (p : AnalyticsProjection) : List String :=
  p.projection.eventTypes.map EventType.asStr

/-- The tables that a projection writes, which no other one does. -/
def Tables : AnalyticsProjection → Type
  | eventLog => FactDb
  | signalsAnalytics => List SignalRow
  | protocolStats => StatsDb

/-- The tables, as the migrations leave them. -/
def empty : (p : AnalyticsProjection) → p.Tables
  | eventLog => ({} : FactDb)
  | signalsAnalytics => ([] : List SignalRow)
  | protocolStats => ({} : StatsDb)

/-- What a projection does with a batch, in one transaction. -/
def process (ext : Externals) :
    (p : AnalyticsProjection) → p.Tables → List StoredEvent → p.Tables
  | eventLog => fun db batch => EventLogProjection.processParsedBatch ext db (parseBatchOnce batch)
  | signalsAnalytics => fun db batch =>
    SignalsAnalyticsProjection.processParsedBatch ext db (parseBatchOnce batch)
  | protocolStats => fun db batch =>
    ProtocolStatsProjection.processParsedBatch db (parseBatchOnce batch)

end AnalyticsProjection

/-- What the three workers work on. -/
structure AnalyticsService where
  eventStore : List StoredEvent
  db : (p : AnalyticsProjection) → p.Tables := AnalyticsProjection.empty
  checkpoints : CheckpointStore := ∅

/-- What happens to the service. -/
inductive AnalyticsAction where
  /-- Events are appended to the event store. -/
  | grow (es : List StoredEvent)
  /-- A worker processes a batch, and saves its checkpoint or not. -/
  | work (p : AnalyticsProjection) (batchSize : ℕ) (saved : Bool)

namespace AnalyticsService

variable (ext : Externals)

/-- The checkpoint of a worker. -/
def checkpoint (s : AnalyticsService) (p : AnalyticsProjection) : ℕ :=
  s.checkpoints.getCheckpoint p.projection.checkpointName "pg"

/-- The batch a worker would read now. -/
def readBatch (s : AnalyticsService) (p : AnalyticsProjection) (batchSize : ℕ) :
    List StoredEvent :=
  EventReader.readBatchMulti s.eventStore p.eventTypeStrs (s.checkpoint p) batchSize

/-- Save the checkpoint of a batch. -/
def saveCheckpoint (s : AnalyticsService) (p : AnalyticsProjection) (batch : List StoredEvent) :
    AnalyticsService :=
  match resolveCheckpointTarget batch with
  | some (newSequence, newBlock) =>
    { s with
      checkpoints := s.checkpoints.saveCheckpoint p.projection.checkpointName "pg" newSequence
        newBlock }
  | none => s

/-- Apply a batch. -/
def applyBatch (s : AnalyticsService) (p : AnalyticsProjection) (batch : List StoredEvent) :
    AnalyticsService :=
  { s with db := Function.update s.db p (p.process ext (s.db p) batch) }

/-- A step of the service. A worker that reads nothing, or whose transaction fails, does
nothing. -/
def step (s : AnalyticsService) : AnalyticsAction → Option AnalyticsService
  | .grow es =>
    if Feed.InOrder StoredEvent.sequenceNumber (s.eventStore ++ es)
        ∧ ∀ e ∈ es, 0 < e.sequenceNumber then
      some { s with eventStore := s.eventStore ++ es }
    else none
  | .work p batchSize saved =>
    let batch := s.readBatch p batchSize
    if batch.isEmpty then none
    else
      let s' := s.applyBatch ext p batch
      some (if saved then s'.saveCheckpoint p batch else s')

/-- A worker has processed everything there is. -/
def Done (s : AnalyticsService) (p : AnalyticsProjection) : Prop :=
  ∀ e ∈ s.eventStore, EventReader.wants p.eventTypeStrs e = true →
    e.sequenceNumber ≤ s.checkpoint p

/-- A service that has not started. -/
structure Fresh (s : AnalyticsService) : Prop where
  inOrder : Feed.InOrder StoredEvent.sequenceNumber s.eventStore
  sequence_pos : ∀ e ∈ s.eventStore, 0 < e.sequenceNumber
  db_eq : s.db = AnalyticsProjection.empty
  checkpoints_eq : s.checkpoints = ∅

/-! ## Each worker as a consumer -/

/-- **A worker as a consumer of the event store.** -/
def view (s : AnalyticsService) (p : AnalyticsProjection) : Feed.Consumer StoredEvent p.Tables where
  log := s.eventStore
  mark := s.checkpoint p
  store := s.db p

/-- What an action is for a worker: nothing, if it is of another one. -/
def actionOf (p : AnalyticsProjection) :
    AnalyticsAction → Option (Feed.Consumer.Action StoredEvent)
  | .grow es => some (.grow es)
  | .work q batchSize saved => if q = p then some (.deliver batchSize saved) else none

/-- A step of a worker, as a consumer. -/
abbrev consume (p : AnalyticsProjection) :
    Feed.Consumer StoredEvent p.Tables → Feed.Consumer.Action StoredEvent →
      Option (Feed.Consumer StoredEvent p.Tables) :=
  Feed.Consumer.step StoredEvent.sequenceNumber (EventReader.wants p.eventTypeStrs)
    (p.process ext)

/-- The events that a worker processes in a schedule without saving its checkpoint. -/
def again (s : AnalyticsService) (p : AnalyticsProjection) (as : List AnalyticsAction) :
    List StoredEvent :=
  (s.view p).again StoredEvent.sequenceNumber (EventReader.wants p.eventTypeStrs) (p.process ext)
    (as.filterMap (actionOf p))

variable {ext} {s s' : AnalyticsService} {p q : AnalyticsProjection} {a : AnalyticsAction}
  {as : List AnalyticsAction}

theorem view_fresh (h : s.Fresh) (p : AnalyticsProjection) :
    (s.view p).Fresh StoredEvent.sequenceNumber := by
  refine ⟨h.inOrder, h.sequence_pos, ?_⟩
  show s.checkpoints.getCheckpoint _ _ = 0
  rw [h.checkpoints_eq]
  rfl

/-- The workers keep their checkpoints under different names. -/
theorem checkpointName_inj
    (h : p.projection.checkpointName = q.projection.checkpointName) : p = q := by
  cases p <;> cases q <;> first | rfl | exact absurd h (by decide)

/-- The batch that a worker reads is a poll of the log. -/
theorem readBatch_eq_batch (hord : Feed.InOrder StoredEvent.sequenceNumber s.eventStore)
    (batchSize : ℕ) :
    s.readBatch p batchSize = (s.view p).batch StoredEvent.sequenceNumber
      (EventReader.wants p.eventTypeStrs) batchSize :=
  EventReader.readBatchMulti_eq_poll _ _ _ hord

/-- What a worker does in a step. -/
theorem step_work {batchSize : ℕ} {saved : Bool}
    (h : s.step ext (.work p batchSize saved) = some s') :
    ∃ hne : s.readBatch p batchSize ≠ [],
      s'.eventStore = s.eventStore
        ∧ s'.db = Function.update s.db p (p.process ext (s.db p) (s.readBatch p batchSize))
        ∧ ∀ q, s'.checkpoint q = if q = p ∧ saved = true
            then ((s.readBatch p batchSize).getLast hne).sequenceNumber else s.checkpoint q := by
  have hne : s.readBatch p batchSize ≠ [] := by
    intro hnil
    unfold step at h
    simp [hnil] at h
  have hsome : some (if saved then (s.applyBatch ext p (s.readBatch p batchSize)).saveCheckpoint p
      (s.readBatch p batchSize) else s.applyBatch ext p (s.readBatch p batchSize)) = some s' := by
    rw [← h]
    exact (if_neg (by simpa using hne)).symm
  refine ⟨hne, ?_⟩
  cases saved with
  | false =>
    cases hsome
    exact ⟨rfl, rfl, fun q => (if_neg fun hq => Bool.false_ne_true hq.2).symm⟩
  | true =>
    rw [if_pos rfl, saveCheckpoint, resolveCheckpointTarget,
      List.getLast?_eq_some_getLast hne] at hsome
    cases hsome
    refine ⟨rfl, rfl, fun q => ?_⟩
    refine (CheckpointStore.getCheckpoint_saveCheckpoint _ _ _ _ _).trans (if_congr ?_ rfl rfl)
    rw [and_iff_left rfl]
    exact ⟨checkpointName_inj, fun hq => hq ▸ rfl⟩

/-- The growth of the event store. -/
theorem step_grow {es : List StoredEvent} (h : s.step ext (.grow es) = some s') :
    Feed.InOrder StoredEvent.sequenceNumber (s.eventStore ++ es)
      ∧ (∀ e ∈ es, 0 < e.sequenceNumber) ∧ s' = { s with eventStore := s.eventStore ++ es } := by
  by_cases hes : Feed.InOrder StoredEvent.sequenceNumber (s.eventStore ++ es)
      ∧ ∀ e ∈ es, 0 < e.sequenceNumber
  · have hstep := (if_pos hes).symm.trans h
    exact ⟨hes.1, hes.2, (Option.some.inj hstep).symm⟩
  · exact absurd ((if_neg hes).symm.trans h) (Option.some_ne_none s').symm

/-- A step keeps the event store in order. -/
theorem inOrder_step (hord : Feed.InOrder StoredEvent.sequenceNumber s.eventStore)
    (h : s.step ext a = some s') : Feed.InOrder StoredEvent.sequenceNumber s'.eventStore := by
  cases a with
  | grow es =>
    obtain ⟨hes, -, rfl⟩ := step_grow h
    exact hes
  | work p batchSize saved =>
    obtain ⟨-, hstore, -⟩ := step_work h
    rw [hstore]
    exact hord

/-- **A step is a step of a worker, or leaves the worker as it is.** -/
theorem view_step (hord : Feed.InOrder StoredEvent.sequenceNumber s.eventStore)
    (h : s.step ext a = some s') (q : AnalyticsProjection) :
    (actionOf q a).elim (s'.view q = s.view q)
      fun b => consume ext q (s.view q) b = some (s'.view q) := by
  cases a with
  | grow es =>
    obtain ⟨hes, hpos, rfl⟩ := step_grow h
    exact if_pos ⟨hes, hpos⟩
  | work p batchSize saved =>
    obtain ⟨hne, hstore, hdb, hckpt⟩ := step_work h
    by_cases hq : p = q
    · subst hq
      have hbatch := readBatch_eq_batch (p := p) hord batchSize
      rw [actionOf, if_pos rfl]
      show Option.map _ ((s.view p).batch _ _ batchSize).getLast? = _
      rw [← hbatch, List.getLast?_eq_some_getLast hne, Option.map_some]
      refine congrArg some ?_
      unfold view
      rw [hstore, hckpt p, hdb, Function.update_self]
      simp
    · rw [actionOf, if_neg hq]
      show s'.view q = s.view q
      unfold view
      rw [hstore, hckpt q, if_neg fun h => hq h.1.symm, hdb, Function.update_of_ne (Ne.symm hq)]

/-- **A worker in a schedule of all three** is a consumer of the event store in a schedule
of its own. -/
theorem follow_view (h : s.Fresh) (hs : Run.follow (step ext) s as = some s')
    (p : AnalyticsProjection) :
    Run.follow (consume ext p) (s.view p) (as.filterMap (actionOf p)) = some (s'.view p) := by
  have hview : ∀ (s : AnalyticsService) (a : AnalyticsAction) (s' : AnalyticsService),
      Feed.InOrder StoredEvent.sequenceNumber s.eventStore → s.step ext a = some s' →
      (actionOf p a).elim (s'.view p = s.view p)
        fun b => consume ext p (s.view p) b = some (s'.view p) :=
    fun _ _ _ hord hstep => view_step hord hstep p
  exact Run.follow_view (fun _ _ _ hord hstep => inOrder_step hord hstep) hview h.inOrder hs

end AnalyticsService
