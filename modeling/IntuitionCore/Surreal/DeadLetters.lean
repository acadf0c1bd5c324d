import IntuitionCore.Entities.Convergence
import IntuitionCore.Library.Run
import IntuitionCore.Surreal.Tallies

/-!
# Events that cannot be projected

The worker of a SurrealDB projection skips an event it cannot project and goes
on with its batch. An event that fails for good is to be found again in the
table `projection_dead_letter`. It gets there if its error is fatal, if the
worker was given a connection to PostgreSQL, if the event can be printed again,
and if the row is inserted. The checkpoint moves past the batch in any case.

So an event is either applied or recorded in every state of a run exactly if no
iteration moves the checkpoint past an event that one of these four conditions
fails for. The projection and the sink are arbitrary here; those of deposits and
redemptions are instances.
-/

/-! ## Errors -/

/-- What an error means for whoever meets it. -/
inductive ErrorClass where
  | fatal
  | transient
  | circuitProtected
  deriving DecidableEq, Repr

/-- A class as it is printed. -/
def ErrorClass.debug : ErrorClass → String
  | fatal => "Fatal"
  | transient => "Transient"
  | circuitProtected => "CircuitProtected"

namespace ProjectionError

def classify : ProjectionError → ErrorClass
  | database _ => .transient
  | surreal _ => .transient
  | sink _ => .transient
  | circuitOpen _ => .circuitProtected
  | invalidEventData _ => .fatal
  | missingField _ => .fatal
  | serialization _ => .fatal
  | config _ => .fatal
  | uniqueConstraintViolation _ => .fatal

/-- An error as it is shown. -/
def display : ProjectionError → String
  | database message => s!"Database error: {message}"
  | surreal message => s!"SurrealDB error: {message}"
  | invalidEventData message => s!"Invalid event data: {message}"
  | missingField field => s!"Missing field in event_data: {field}"
  | serialization message => s!"Serialization error: {message}"
  | config message => s!"Configuration error: {message}"
  | sink message => s!"Sink error: {message}"
  | uniqueConstraintViolation message => s!"Unique constraint violation: {message}"
  | circuitOpen message => s!"Circuit breaker open: {message}"

end ProjectionError

/-! ## Parsed events, as they were stored -/

/-- The event of an envelope and a payload. -/
def storedEventFromParts (metadata : EventMetadata) (eventData : EventData) : StoredEvent where
  sequenceNumber := metadata.sequenceNumber
  blockNumber := metadata.blockNumber
  blockTimestamp := metadata.blockTimestamp
  blockHash := metadata.blockHash
  transactionHash := metadata.transactionHash
  logIndex := metadata.logIndex
  eventType := metadata.eventType
  eventData := eventData
  termId := metadata.termId
  entityId := metadata.entityId
  isCanonical := metadata.isCanonical
  ingestedAt := metadata.ingestedAt

namespace ParsedEvent

/-- The number of an event. -/
def sequenceNumber (event : ParsedEvent) : ℕ := event.metadata.sequenceNumber

/-- The name of the type of an event. -/
def eventType (event : ParsedEvent) : String := event.metadata.eventType

variable (toValue : ParsedEvent → Option EventData)

/-- An event as it was stored. The record of an event that was read is printed
again, which may fail. -/
def asStoredEvent : ParsedEvent → Option StoredEvent
  | unknown event => some event
  | event => (toValue event).map (storedEventFromParts event.metadata)

@[simp] theorem sequenceNumber_parseOrUnknown (e : StoredEvent) :
    (parseOrUnknown e).sequenceNumber = e.sequenceNumber :=
  congrArg EventMetadata.sequenceNumber (metadata_parseOrUnknown e)

/-- An event is printed under its own number. -/
theorem sequenceNumber_of_asStoredEvent {event : ParsedEvent} {stored : StoredEvent}
    (h : event.asStoredEvent toValue = some stored) :
    stored.sequenceNumber = event.sequenceNumber := by
  cases event with
  | unknown e => cases h; rfl
  | _ =>
    obtain ⟨data, -, rfl⟩ := Option.map_eq_some_iff.mp h
    rfl

end ParsedEvent

/-! ## Dead letters -/

/-- A row of `projection_dead_letter`. -/
structure DeadLetterRow where
  eventType : String
  errorClass : String
  errorMessage : String
  eventData : EventData
  blockNumber : ℕ
  logIndex : ℕ
  txHash : String
  deriving DecidableEq, Repr

/-- The table `projection_dead_letter`, by the names of projections and the
numbers of events. -/
abbrev DeadLetterTable := Table (String × ℕ) DeadLetterRow

namespace DeadLetterRepo

/-- Insert a dead letter, unless there is one. -/
def recordFatal (deadLetters : DeadLetterTable) (projectionName : String) (sequenceNumber : ℕ)
    (row : DeadLetterRow) : DeadLetterTable :=
  deadLetters.insertIfAbsent (projectionName, sequenceNumber) row

variable (toValue : ParsedEvent → Option EventData) (inserts : ℕ → Bool)

/-- Record an event that failed. An event that cannot be printed is not
recorded, and nobody is told of an insertion that fails. -/
def recordFatalEvent (deadLetters : DeadLetterTable) (projectionName : String)
    (event : ParsedEvent) (err : ProjectionError) : DeadLetterTable :=
  match event.asStoredEvent toValue with
  | none => deadLetters
  | some stored =>
    if inserts stored.sequenceNumber then
      recordFatal deadLetters projectionName stored.sequenceNumber
        { eventType := event.eventType
          errorClass := err.classify.debug
          errorMessage := err.display
          eventData := stored.eventData
          blockNumber := stored.blockNumber
          logIndex := stored.logIndex
          txHash := stored.transactionHash }
    else deadLetters

/-- **Which dead letters there are after an event was recorded.** -/
theorem mem_recordFatalEvent {deadLetters : DeadLetterTable} {projectionName : String}
    {event : ParsedEvent} {err : ProjectionError} {key : String × ℕ} :
    key ∈ recordFatalEvent toValue inserts deadLetters projectionName event err
      ↔ key ∈ deadLetters ∨ (event.asStoredEvent toValue).isSome = true
          ∧ inserts event.sequenceNumber = true ∧ key = (projectionName, event.sequenceNumber) := by
  unfold recordFatalEvent
  cases hstored : event.asStoredEvent toValue with
  | none => simp
  | some stored =>
    simp only [ParsedEvent.sequenceNumber_of_asStoredEvent toValue hstored]
    by_cases hinsert : inserts event.sequenceNumber = true
    · simp only [if_pos hinsert, recordFatal, Table.insertIfAbsent, Table.mem_upsert]
      simp [hinsert, or_comm]
    · simp [hinsert]

end DeadLetterRepo

/-! ## The worker -/

/-- A projection of events to operations on a graph. -/
structure GraphProjection where
  name : String
  eventTypes : List EventType
  /-- The operations of an event, or why it has none. -/
  projectParsed : ParsedEvent → Except ProjectionError (List SinkOperation)

/-- The projections of deposits and redemptions. -/
def SurrealProjection.toGraphProjection (fmt : SurrealFormats)
    (payload : StoredEvent → JsonObject) (p : SurrealProjection) : GraphProjection where
  name := p.name
  eventTypes := p.eventTypes
  projectParsed := p.projectParsed fmt payload

/-- What a worker works on. -/
structure GraphService (σ : Type) where
  eventStore : List StoredEvent
  sink : σ
  checkpoints : CheckpointStore := ∅
  deadLetters : DeadLetterTable := ∅
  /-- The batches whose operations the sink has applied, the last one first.
  Nothing reads them. -/
  applied : List (List StoredEvent) := []

/-- What an iteration of the loop meets. A process that stops in the middle of
one is as if everything failed from there on. -/
structure GraphIteration where
  /-- Whether the dead letter of a number can be inserted. -/
  inserts : ℕ → Bool
  /-- Whether the sink can be reached, at one of the attempts. -/
  reachesSink : Bool
  /-- Whether the checkpoint can be saved. -/
  savesCheckpoint : Bool

/-- What becomes of the events of a batch. -/
structure ProjectedBatch where
  allOps : List SinkOperation
  hadError : Bool
  deadLetters : DeadLetterTable

/-- A worker of a projection. -/
structure GraphWorker where
  projection : GraphProjection
  sinkName : String := "surrealdb"
  batchSize : ℕ
  /-- Whether the worker was given a connection for dead letters. -/
  deadLetterPool : Bool

/-- The worker of deposits or redemptions, with or without dead letters. -/
def SurrealWorker.toGraphWorker (fmt : SurrealFormats) (payload : StoredEvent → JsonObject)
    (deadLetterPool : Bool) (w : SurrealWorker) : GraphWorker where
  projection := w.projection.toGraphProjection fmt payload
  batchSize := w.batchSize
  deadLetterPool := deadLetterPool

namespace GraphWorker

variable {σ : Type} (sink : ProjectionSink σ) (toValue : ParsedEvent → Option EventData)
  (w : GraphWorker)

/-- The names of the types a worker reads. -/
def eventTypeStrs : List String := w.projection.eventTypes.map EventType.asStr

/-- The checkpoint of a worker. -/
def checkpoint (s : GraphService σ) : ℕ :=
  s.checkpoints.getCheckpoint w.projection.name w.sinkName

/-- The batch a worker would read now. -/
def readBatch (s : GraphService σ) : List StoredEvent :=
  EventReader.readBatchMulti s.eventStore w.eventTypeStrs (w.checkpoint s) w.batchSize

/-- Project one event of a batch. An event that fails is skipped; it is recorded
if its error is fatal and the worker can record anything. -/
def projectEvent (inserts : ℕ → Bool) (batch : ProjectedBatch) (event : ParsedEvent) :
    ProjectedBatch :=
  match w.projection.projectParsed event with
  | .ok ops => { batch with allOps := batch.allOps ++ ops }
  | .error err =>
    { batch with
      hadError := true
      deadLetters :=
        if err.classify = .fatal ∧ w.deadLetterPool = true then
          DeadLetterRepo.recordFatalEvent toValue inserts batch.deadLetters w.projection.name
            event err
        else batch.deadLetters }

/-- Project the events of a batch. -/
def projectBatch (inserts : ℕ → Bool) (deadLetters : DeadLetterTable)
    (batch : List StoredEvent) : ProjectedBatch :=
  (parseBatchOnce batch).foldl (w.projectEvent toValue inserts) ⟨[], false, deadLetters⟩

/-- Have operations applied, if there are any. -/
def applyOps (round : GraphIteration) (s : GraphService σ) (batch : List StoredEvent)
    (allOps : List SinkOperation) : Option (GraphService σ) :=
  if allOps.isEmpty then some s
  else if round.reachesSink then
    (sink.applyBatch s.sink allOps).map fun db =>
      { s with sink := db, applied := batch :: s.applied }
  else none

/-- Save the checkpoint of a batch. -/
def saveCheckpoint (s : GraphService σ) (batch : List StoredEvent) : GraphService σ :=
  match resolveCheckpointTarget batch with
  | some (newSequence, newBlock) =>
    { s with
      checkpoints := s.checkpoints.saveCheckpoint w.projection.name w.sinkName newSequence
        newBlock }
  | none => s

/-- An iteration of the loop. Where the sink fails, the next one begins from the
same checkpoint; where saving the checkpoint fails, too. -/
def iterate (s : GraphService σ) (round : GraphIteration) : GraphService σ :=
  if (w.readBatch s).isEmpty then s
  else
    let projected := w.projectBatch toValue round.inserts s.deadLetters (w.readBatch s)
    let s₁ := { s with deadLetters := projected.deadLetters }
    match applyOps sink round s₁ (w.readBatch s) projected.allOps with
    | none => s₁
    | some s₂ => if round.savesCheckpoint then w.saveCheckpoint s₂ (w.readBatch s) else s₂

/-- What happens. -/
inductive Action where
  /-- Events are appended to the event store. -/
  | appends (events : List StoredEvent)
  | iterates (round : GraphIteration)

/-- What an action does, where it is possible. -/
def step (s : GraphService σ) : Action → Option (GraphService σ)
  | .appends events =>
    if Feed.InOrder StoredEvent.sequenceNumber (s.eventStore ++ events)
        ∧ ∀ e ∈ events, 0 < e.sequenceNumber then
      some { s with eventStore := s.eventStore ++ events }
    else none
  | .iterates round => some (w.iterate sink toValue s round)

/-! ## Accounting -/

/-- The operations of an event have been applied: it was projected, and the sink
has applied its batch, unless there was nothing to apply. -/
def HasApplied (s : GraphService σ) (e : StoredEvent) : Prop :=
  ∃ ops, w.projection.projectParsed (ParsedEvent.parseOrUnknown e) = .ok ops
    ∧ (ops = [] ∨ ∃ batch ∈ s.applied, e ∈ batch)

/-- An event has a dead letter of this projection. -/
def HasDeadLetter (s : GraphService σ) (e : StoredEvent) : Prop :=
  (w.projection.name, e.sequenceNumber) ∈ s.deadLetters

/-- **No event is both skipped and unrecorded**: each that the checkpoint has
passed has been applied, or has a dead letter. -/
def Accounted (s : GraphService σ) : Prop :=
  ∀ e ∈ s.eventStore, EventReader.wants w.eventTypeStrs e = true →
    e.sequenceNumber ≤ w.checkpoint s → w.HasApplied s e ∨ w.HasDeadLetter s e

/-- A failed event is recorded: its error is fatal, the worker can record
anything, the event can be printed, and its dead letter can be inserted. -/
def Records (inserts : ℕ → Bool) (e : StoredEvent) (err : ProjectionError) : Prop :=
  err.classify = .fatal ∧ w.deadLetterPool = true
    ∧ ((ParsedEvent.parseOrUnknown e).asStoredEvent toValue).isSome = true
    ∧ inserts e.sequenceNumber = true

/-- The operations of a stored event. -/
def operations (e : StoredEvent) : List SinkOperation :=
  match w.projection.projectParsed (ParsedEvent.parseOrUnknown e) with
  | .ok ops => ops
  | .error _ => []

/-- The operations of the batch a worker would read now can be applied. -/
def CanApply (s : GraphService σ) (round : GraphIteration) : Prop :=
  (w.readBatch s).flatMap w.operations = []
    ∨ round.reachesSink = true
        ∧ (sink.applyBatch s.sink ((w.readBatch s).flatMap w.operations)).isSome = true

/-- An iteration that moves the checkpoint leaves no failed event of its batch
unrecorded. -/
def RecordsFailures (s : GraphService σ) : Action → Prop
  | .appends _ => True
  | .iterates round =>
    w.CanApply sink s round → round.savesCheckpoint = true →
      ∀ e ∈ w.readBatch s, ∀ err,
        w.projection.projectParsed (ParsedEvent.parseOrUnknown e) = .error err →
          w.HasDeadLetter s e ∨ w.Records toValue round.inserts e err

/-! ## What an iteration does -/

variable {sink toValue w} {s s' : GraphService σ} {round : GraphIteration} {inserts : ℕ → Bool}
  {batch : List StoredEvent} {e : StoredEvent}

/-- **A batch has the operations of its events.** -/
theorem allOps_projectBatch (deadLetters : DeadLetterTable) :
    (w.projectBatch toValue inserts deadLetters batch).allOps = batch.flatMap w.operations := by
  have hfold : ∀ acc : ProjectedBatch,
      ((parseBatchOnce batch).foldl (w.projectEvent toValue inserts) acc).allOps
        = acc.allOps ++ batch.flatMap w.operations := by
    induction batch with
    | nil => exact fun acc => (List.append_nil _).symm
    | cons e es ih =>
      intro acc
      show ProjectedBatch.allOps ((parseBatchOnce es).foldl _ _) = _
      rw [ih, List.flatMap_cons, ← List.append_assoc]
      congr 1
      unfold projectEvent operations
      cases w.projection.projectParsed (ParsedEvent.parseOrUnknown e) with
      | ok ops => rfl
      | error err => exact (List.append_nil _).symm
  exact hfold _

/-- The operations of deposits and redemptions, dead letters or not. -/
theorem allOps_toGraphWorker (fmt : SurrealFormats) (payload : StoredEvent → JsonObject)
    (deadLetterPool : Bool) (w : SurrealWorker) (deadLetters : DeadLetterTable) :
    ((w.toGraphWorker fmt payload deadLetterPool).projectBatch toValue inserts deadLetters
      batch).allOps = w.projectBatch fmt payload batch :=
  allOps_projectBatch deadLetters

/-- A batch has an error if one of its events fails. -/
theorem hadError_projectBatch (deadLetters : DeadLetterTable) :
    (w.projectBatch toValue inserts deadLetters batch).hadError = true
      ↔ ∃ e ∈ batch, ∃ err,
          w.projection.projectParsed (ParsedEvent.parseOrUnknown e) = .error err := by
  have hfold : ∀ acc : ProjectedBatch,
      ((parseBatchOnce batch).foldl (w.projectEvent toValue inserts) acc).hadError = true
        ↔ acc.hadError = true ∨ ∃ e ∈ batch, ∃ err,
          w.projection.projectParsed (ParsedEvent.parseOrUnknown e) = .error err := by
    induction batch with
    | nil => simp [parseBatchOnce]
    | cons e es ih =>
      intro acc
      show ProjectedBatch.hadError ((parseBatchOnce es).foldl _ _) = true ↔ _
      rw [ih]
      unfold projectEvent
      cases hproject : w.projection.projectParsed (ParsedEvent.parseOrUnknown e) with
      | ok ops => simp [hproject]
      | error err => simp [hproject]
  exact (hfold _).trans (or_iff_right Bool.false_ne_true)

/-- **Which dead letters there are after a batch**: those there were, and those
of the failed events that were recorded. -/
theorem mem_deadLetters_projectBatch {deadLetters : DeadLetterTable} {key : String × ℕ} :
    key ∈ (w.projectBatch toValue inserts deadLetters batch).deadLetters
      ↔ key ∈ deadLetters ∨ ∃ e ∈ batch, ∃ err,
          w.projection.projectParsed (ParsedEvent.parseOrUnknown e) = .error err
            ∧ w.Records toValue inserts e err ∧ key = (w.projection.name, e.sequenceNumber) := by
  have hfold : ∀ acc : ProjectedBatch,
      key ∈ ((parseBatchOnce batch).foldl (w.projectEvent toValue inserts) acc).deadLetters
        ↔ key ∈ acc.deadLetters ∨ ∃ e ∈ batch, ∃ err,
          w.projection.projectParsed (ParsedEvent.parseOrUnknown e) = .error err
            ∧ w.Records toValue inserts e err
            ∧ key = (w.projection.name, e.sequenceNumber) := by
    induction batch with
    | nil => simp [parseBatchOnce]
    | cons e es ih =>
      intro acc
      show key ∈ ProjectedBatch.deadLetters ((parseBatchOnce es).foldl _ _) ↔ _
      rw [ih, List.exists_mem_cons_iff, ← or_assoc]
      refine or_congr_left ?_
      unfold projectEvent
      cases hproject : w.projection.projectParsed (ParsedEvent.parseOrUnknown e) with
      | ok ops => simp
      | error err =>
        -- only a fatal error is recorded, and only with a connection
        by_cases hrecord : err.classify = .fatal ∧ w.deadLetterPool = true
        · simp only [if_pos hrecord, DeadLetterRepo.mem_recordFatalEvent]
          simp [Records, hrecord, and_assoc]
        · have hnot : ¬ w.Records toValue inserts e err := fun h => hrecord ⟨h.1, h.2.1⟩
          simp [if_neg hrecord, hnot]
  exact hfold _

/-- What the sink and the batches it has applied may become. -/
def AppliesTo (sink : ProjectionSink σ) (w : GraphWorker) (s : GraphService σ) (db : σ)
    (applied : List (List StoredEvent)) : Prop :=
  (db = s.sink ∧ applied = s.applied)
    ∨ (sink.applyBatch s.sink ((w.readBatch s).flatMap w.operations) = some db
        ∧ applied = w.readBatch s :: s.applied)

/-- The service after its batch was projected, with what the sink and the batches
it has applied have become. -/
def projectedTo (toValue : ParsedEvent → Option EventData) (w : GraphWorker) (s : GraphService σ)
    (inserts : ℕ → Bool) (db : σ) (applied : List (List StoredEvent)) : GraphService σ :=
  { s with
    sink := db
    applied
    deadLetters := (w.projectBatch toValue inserts s.deadLetters (w.readBatch s)).deadLetters }

variable (sink toValue w s round) in
/-- **Operations that can be applied leave what they make of the sink**, and the
others leave nothing. -/
theorem applyOps_cases :
    (¬ w.CanApply sink s round
        ∧ applyOps sink round (projectedTo toValue w s round.inserts s.sink s.applied)
          (w.readBatch s) ((w.readBatch s).flatMap w.operations) = none)
    ∨ (w.CanApply sink s round ∧ ∃ db applied, AppliesTo sink w s db applied
        ∧ ((w.readBatch s).flatMap w.operations = [] ∨ applied = w.readBatch s :: s.applied)
        ∧ applyOps sink round (projectedTo toValue w s round.inserts s.sink s.applied)
            (w.readBatch s) ((w.readBatch s).flatMap w.operations)
          = some (projectedTo toValue w s round.inserts db applied)) := by
  simp only [applyOps, List.isEmpty_iff]
  by_cases hops : (w.readBatch s).flatMap w.operations = []
  · -- there is nothing to apply, and the sink is left alone
    rw [if_pos hops]
    exact .inr ⟨.inl hops, s.sink, s.applied, .inl ⟨rfl, rfl⟩, .inl hops, rfl⟩
  · rw [if_neg hops]
    by_cases hreach : round.reachesSink = true
    · rw [if_pos hreach]
      show _ ∧ (sink.applyBatch s.sink ((w.readBatch s).flatMap w.operations)).map _ = none ∨ _
      cases hdb : sink.applyBatch s.sink ((w.readBatch s).flatMap w.operations) with
      | none =>
        refine .inl ⟨fun h => ?_, rfl⟩
        obtain ⟨-, hsome⟩ := h.resolve_left hops
        rw [hdb] at hsome
        exact Bool.false_ne_true hsome
      | some db =>
        exact .inr ⟨.inr ⟨hreach, by rw [hdb]; rfl⟩, db, w.readBatch s :: s.applied,
          .inr ⟨hdb, rfl⟩, .inr rfl, congrArg (Option.map _) hdb⟩
    · rw [if_neg hreach]
      exact .inl ⟨fun h => hreach (h.resolve_left hops).1, rfl⟩

variable (sink toValue w s round) in
/-- **What an iteration does.** There is nothing to read; or its batch fails, or
its checkpoint is not saved; or its batch is applied and the checkpoint moves. -/
theorem iterate_cases :
    (w.readBatch s = [] ∧ w.iterate sink toValue s round = s)
    ∨ (w.readBatch s ≠ [] ∧ ¬ (w.CanApply sink s round ∧ round.savesCheckpoint = true)
        ∧ ∃ db applied, AppliesTo sink w s db applied
          ∧ w.iterate sink toValue s round
            = projectedTo toValue w s round.inserts db applied)
    ∨ (w.readBatch s ≠ [] ∧ w.CanApply sink s round ∧ round.savesCheckpoint = true
        ∧ ∃ db applied, AppliesTo sink w s db applied
          ∧ ((w.readBatch s).flatMap w.operations = [] ∨ applied = w.readBatch s :: s.applied)
          ∧ w.iterate sink toValue s round
            = w.saveCheckpoint (projectedTo toValue w s round.inserts db applied)
                (w.readBatch s)) := by
  by_cases hne : w.readBatch s = []
  · refine .inl ⟨hne, ?_⟩
    unfold iterate
    rw [if_pos (by rw [hne]; rfl)]
  · refine .inr ?_
    have hstep : w.iterate sink toValue s round
        = match applyOps sink round (projectedTo toValue w s round.inserts s.sink s.applied)
            (w.readBatch s) ((w.readBatch s).flatMap w.operations) with
          | none => projectedTo toValue w s round.inserts s.sink s.applied
          | some s₂ =>
            if round.savesCheckpoint then w.saveCheckpoint s₂ (w.readBatch s) else s₂ := by
      rw [← allOps_projectBatch]
      exact if_neg (by simpa using hne)
    rw [hstep]
    obtain ⟨hnot, happly⟩ | ⟨hcan, db, applied, happ, hall, happly⟩ :=
      applyOps_cases sink toValue w s round
    · rw [happly]
      exact .inl ⟨hne, fun h => hnot h.1, s.sink, s.applied, .inl ⟨rfl, rfl⟩, rfl⟩
    · rw [happly]
      by_cases hsave : round.savesCheckpoint = true
      · exact .inr ⟨hne, hcan, hsave, db, applied, happ, hall, if_pos hsave⟩
      · exact .inl ⟨hne, fun h => hsave h.2, db, applied, happ, if_neg hsave⟩

/-- Saving a checkpoint touches nothing else. -/
theorem saveCheckpoint_eq (s : GraphService σ) (hne : batch ≠ []) :
    ∃ checkpoints, w.saveCheckpoint s batch = { s with checkpoints }
      ∧ checkpoints.getCheckpoint w.projection.name w.sinkName
        = (batch.getLast hne).sequenceNumber := by
  unfold saveCheckpoint resolveCheckpointTarget
  rw [List.getLast?_eq_some_getLast hne]
  exact ⟨_, rfl, (CheckpointStore.getCheckpoint_saveCheckpoint_key _ _ _ _ _ (_, _)).trans
    (if_pos rfl)⟩

/-! ## Runs -/

variable (w) in
/-- A worker that has not started. The sink may hold anything, and there may be
dead letters. -/
structure Fresh (s : GraphService σ) : Prop where
  inOrder : Feed.InOrder StoredEvent.sequenceNumber s.eventStore
  sequence_pos : ∀ e ∈ s.eventStore, 0 < e.sequenceNumber
  checkpoint_eq : w.checkpoint s = 0
  applied_eq : s.applied = []

variable (w) in
/-- The events are in order, and the checkpoint lies on them. -/
structure Aligned (s : GraphService σ) : Prop where
  inOrder : Feed.InOrder StoredEvent.sequenceNumber s.eventStore
  checkpoint_mem : w.checkpoint s = 0 ∨ ∃ e ∈ s.eventStore, w.checkpoint s = e.sequenceNumber

theorem Aligned.of_fresh (h : w.Fresh s) : w.Aligned s := ⟨h.inOrder, .inl h.checkpoint_eq⟩

theorem Accounted.of_fresh (h : w.Fresh s) : w.Accounted s := by
  intro e he _ hle
  rw [h.checkpoint_eq] at hle
  exact absurd (h.sequence_pos e he) (by omega)

/-- New events lie after the checkpoint. -/
theorem Aligned.checkpoint_lt (h : w.Aligned s) {events : List StoredEvent}
    (hord : Feed.InOrder StoredEvent.sequenceNumber (s.eventStore ++ events))
    (hpos : ∀ e ∈ events, 0 < e.sequenceNumber) (he : e ∈ events) :
    w.checkpoint s < e.sequenceNumber := by
  obtain hc | ⟨f, hf, hc⟩ := h.checkpoint_mem
  · exact hc ▸ hpos e he
  · exact hc ▸ (List.pairwise_append.mp hord).2.2 f hf e he

theorem mem_readBatch (he : e ∈ w.readBatch s) :
    e ∈ s.eventStore ∧ EventReader.wants w.eventTypeStrs e = true :=
  ⟨(EventReader.mem_of_mem_readBatchMulti he).1, (EventReader.mem_of_mem_readBatchMulti he).2.1⟩

/-- **A step keeps the checkpoint on the events.** -/
theorem Aligned.step (h : w.Aligned s) {a : Action} (hs : w.step sink toValue s a = some s') :
    w.Aligned s' := by
  cases a with
  | appends events =>
    obtain ⟨⟨hord, hpos⟩, heq⟩ := Option.ite_none_right_eq_some.mp hs
    cases heq
    exact ⟨hord, h.checkpoint_mem.imp_right fun ⟨e, he, hc⟩ => ⟨e, List.mem_append_left _ he, hc⟩⟩
  | iterates round =>
    cases hs
    obtain ⟨-, hs⟩ | ⟨-, -, db, applied, -, hs⟩ | ⟨hne, -, -, db, applied, -, -, hs⟩ :=
      iterate_cases sink toValue w s round
    · rw [hs]
      exact h
    · rw [hs]
      exact ⟨h.inOrder, h.checkpoint_mem⟩
    · obtain ⟨checkpoints, hsave, hlast⟩ :=
        saveCheckpoint_eq (projectedTo toValue w s round.inserts db applied) hne
      rw [hs, hsave]
      exact ⟨h.inOrder, .inr ⟨_, (mem_readBatch (List.getLast_mem hne)).1, hlast⟩⟩

variable (sink w) in
/-- The sink after batches, the last one first. -/
def applyBatches (db : σ) (batches : List (List StoredEvent)) : Option σ :=
  batches.foldr
    (fun batch db => db.bind fun db => sink.applyBatch db (batch.flatMap w.operations)) (some db)

/-- **The sink is what the batches that it has applied make of it.** -/
theorem applyBatches_applied (h : w.Fresh s) {actions : List Action}
    (hs : Run.follow (w.step sink toValue) s actions = some s') :
    applyBatches sink w s.sink s'.applied = some s'.sink := by
  refine Run.invariant_of_follow (I := fun x => applyBatches sink w s.sink x.applied = some x.sink)
    (fun x a x' hx hstep => ?_) hs ?_
  · have hto : ∀ {db applied}, AppliesTo sink w x db applied →
        applyBatches sink w s.sink applied = some db := by
      rintro db applied (⟨rfl, rfl⟩ | ⟨hdb, rfl⟩)
      · exact hx
      · show (applyBatches sink w s.sink x.applied).bind _ = _
        rw [hx]
        exact hdb
    cases a with
    | appends events =>
      cases (Option.ite_none_right_eq_some.mp hstep).2
      exact hx
    | iterates round =>
      cases hstep
      obtain ⟨-, hs⟩ | ⟨-, -, db, applied, happ, hs⟩ | ⟨hne, -, -, db, applied, happ, -, hs⟩ :=
        iterate_cases sink toValue w x round
      · rw [hs]
        exact hx
      · rw [hs]
        exact hto happ
      · obtain ⟨checkpoints, hsave, -⟩ :=
          saveCheckpoint_eq (projectedTo toValue w x round.inserts db applied) hne
        rw [hs, hsave]
        exact hto happ
  · rw [h.applied_eq]
    rfl

/-- An event stays applied. -/
theorem HasApplied.mono (h : w.HasApplied s e) (happlied : s.applied ⊆ s'.applied) :
    w.HasApplied s' e := by
  obtain ⟨ops, hops, happ⟩ := h
  exact ⟨ops, hops, happ.imp_right fun ⟨batch, hb, he⟩ => ⟨batch, happlied hb, he⟩⟩

/-- No applied batch is forgotten. -/
theorem AppliesTo.subset {db : σ} {applied : List (List StoredEvent)}
    (h : AppliesTo sink w s db applied) : s.applied ⊆ applied := by
  obtain ⟨-, rfl⟩ | ⟨-, rfl⟩ := h
  · exact List.Subset.refl _
  · exact List.subset_cons_self _ _

/-- Projecting a batch loses nothing that was applied or recorded. -/
theorem accounted_mono {db : σ} {applied : List (List StoredEvent)}
    (happ : AppliesTo sink w s db applied) (h : w.HasApplied s e ∨ w.HasDeadLetter s e) :
    w.HasApplied (projectedTo toValue w s inserts db applied) e
      ∨ w.HasDeadLetter (projectedTo toValue w s inserts db applied) e :=
  h.imp (fun h => h.mono happ.subset) fun hdead => mem_deadLetters_projectBatch.mpr (.inl hdead)

/-- An event of the batch that failed has a dead letter afterwards if it had one,
or is recorded. -/
theorem hasDeadLetter_projectedTo (h : w.Aligned s) (db : σ) (applied : List (List StoredEvent))
    (he : e ∈ w.readBatch s) {err : ProjectionError}
    (herr : w.projection.projectParsed (ParsedEvent.parseOrUnknown e) = .error err) :
    w.HasDeadLetter (projectedTo toValue w s inserts db applied) e
      ↔ w.HasDeadLetter s e ∨ w.Records toValue inserts e err := by
  refine mem_deadLetters_projectBatch.trans (or_congr_right ?_)
  constructor
  · rintro ⟨f, hf, err', herr', hrec, hkey⟩
    -- two events of a log do not share a number
    obtain rfl := h.inOrder.eq_of_pos_eq (mem_readBatch he).1 (mem_readBatch hf).1
      (congrArg Prod.snd hkey)
    obtain rfl := Except.error.inj (herr.symm.trans herr')
    exact hrec
  · exact fun hrec => ⟨e, he, err, herr, hrec, rfl⟩

/-- An event of the batch that did not fail is applied with it. -/
theorem hasApplied_of_readBatch
    (hall : (w.readBatch s).flatMap w.operations = [] ∨ s'.applied = w.readBatch s :: s.applied)
    (he : e ∈ w.readBatch s) {ops : List SinkOperation}
    (hops : w.projection.projectParsed (ParsedEvent.parseOrUnknown e) = .ok ops) :
    w.HasApplied s' e := by
  refine ⟨ops, hops, hall.imp (fun hnone => ?_) fun happlied => ?_⟩
  · have heq : w.operations e = ops := by
      unfold operations
      rw [hops]
    exact heq ▸ List.flatMap_eq_nil_iff.mp hnone e he
  · exact ⟨_, happlied ▸ List.mem_cons_self, he⟩

/-- **An iteration that moves the checkpoint loses an event exactly if it failed
and is not recorded.** -/
theorem accounted_saveCheckpoint (h : w.Aligned s) (hacc : w.Accounted s) {db : σ}
    {applied : List (List StoredEvent)} (hne : w.readBatch s ≠ [])
    (happ : AppliesTo sink w s db applied)
    (hall : (w.readBatch s).flatMap w.operations = [] ∨ applied = w.readBatch s :: s.applied) :
    w.Accounted (w.saveCheckpoint (projectedTo toValue w s inserts db applied) (w.readBatch s))
      ↔ ∀ e ∈ w.readBatch s, ∀ err,
          w.projection.projectParsed (ParsedEvent.parseOrUnknown e) = .error err →
            w.HasDeadLetter s e ∨ w.Records toValue inserts e err := by
  obtain ⟨checkpoints, hmoved, hlast⟩ :=
    saveCheckpoint_eq (projectedTo toValue w s inserts db applied) hne
  rw [hmoved]
  constructor
  · intro hacc' e he err herr
    obtain ⟨hmem, hwants⟩ := mem_readBatch he
    have hle : e.sequenceNumber ≤ ((w.readBatch s).getLast hne).sequenceNumber :=
      (EventReader.le_getLast_iff_mem_readBatchMulti h.inOrder hne hmem hwants).mpr (.inr he)
    obtain ⟨ops, hops, -⟩ | hdead := hacc' e hmem hwants (hle.trans_eq hlast.symm)
    · exact absurd (herr.symm.trans hops) nofun
    · exact (hasDeadLetter_projectedTo h db applied he herr).mp hdead
  · intro hrec e hmem hwants hle
    have hle : e.sequenceNumber ≤ ((w.readBatch s).getLast hne).sequenceNumber :=
      hle.trans_eq hlast
    -- the checkpoint had passed the event before, or it is one of the batch
    obtain hbefore | he :=
      (EventReader.le_getLast_iff_mem_readBatchMulti h.inOrder hne hmem hwants).mp hle
    · exact accounted_mono happ (hacc e hmem hwants hbefore)
    · cases hproject : w.projection.projectParsed (ParsedEvent.parseOrUnknown e) with
      | ok ops => exact .inl (hasApplied_of_readBatch hall he hproject)
      | error err =>
        exact .inr ((hasDeadLetter_projectedTo h db applied he hproject).mpr
          (hrec e he err hproject))

/-- **A step loses an event exactly if it moves the checkpoint past one that
failed and is not recorded.** -/
theorem accounted_step (h : w.Aligned s) (hacc : w.Accounted s) {a : Action}
    (hs : w.step sink toValue s a = some s') :
    w.Accounted s' ↔ w.RecordsFailures sink toValue s a := by
  cases a with
  | appends events =>
    obtain ⟨⟨hord, hpos⟩, heq⟩ := Option.ite_none_right_eq_some.mp hs
    cases heq
    -- new events lie after the checkpoint
    refine iff_of_true (fun e he hwants hle => ?_) trivial
    obtain he | he := List.mem_append.mp he
    · exact hacc e he hwants hle
    · exact absurd hle (Nat.not_le.mpr (h.checkpoint_lt hord hpos he))
  | iterates round =>
    cases hs
    obtain ⟨hnil, hs⟩ | ⟨hne, hnot, db, applied, happ, hs⟩ |
        ⟨hne, hcan, hsave, db, applied, happ, hall, hs⟩ := iterate_cases sink toValue w s round
    · rw [hs]
      refine iff_of_true hacc fun _ _ e he => ?_
      rw [hnil] at he
      cases he
    · -- the checkpoint stays
      rw [hs]
      exact iff_of_true (fun e he hwants hle => accounted_mono happ (hacc e he hwants hle))
        fun hcan hsave => absurd ⟨hcan, hsave⟩ hnot
    · rw [hs, accounted_saveCheckpoint h hacc hne happ hall]
      exact ⟨fun hrec _ _ => hrec, fun hrec => hrec hcan hsave⟩

/-- **No event is both skipped and unrecorded in any state of a run exactly if
every iteration that moves the checkpoint records the events of its batch that
failed.** -/
theorem accounted_iff_recordsFailures (sink : ProjectionSink σ)
    (toValue : ParsedEvent → Option EventData) (h : w.Fresh s) (actions : List Action) :
    Run.Always (w.step sink toValue) w.Accounted s actions
      ↔ Run.EachStep (w.step sink toValue) (w.RecordsFailures sink toValue) s actions :=
  Run.always_iff_eachStep (fun _ _ _ hs hstep => hs.step hstep)
    (fun _ _ _ hs hacc hstep => accounted_step hs hacc hstep) (.of_fresh h) (.of_fresh h) actions

end GraphWorker

/-! ## A deposit without a sender -/

section NoSender

/-- A deposit whose payload has nothing in it. -/
def senderless : StoredEvent where
  sequenceNumber := 1
  eventType := "Deposited"
  eventData := {}

/-- The worker of deposits, with a connection for dead letters. -/
def depositWorker : GraphWorker :=
  graphWorker.toGraphWorker .exact (fun _ => ∅) true

/-- The deposit is to be read. -/
def senderlessService : GraphService SurrealDb := ⟨[senderless], {}, ∅, ∅, []⟩

/-- An iteration in which only dead letters may not be inserted. -/
def roundOf (inserted : Bool) : GraphIteration := ⟨fun _ => inserted, true, true⟩

theorem fresh_senderless : depositWorker.Fresh senderlessService :=
  ⟨List.pairwise_singleton _ _, by decide, rfl, rfl⟩

theorem readBatch_senderless : depositWorker.readBatch senderlessService = [senderless] := by
  show EventReader.readBatchMulti [senderless] ["Deposited"] 0 500 = [senderless]
  decide +kernel

theorem project_senderless :
    depositWorker.projection.projectParsed (ParsedEvent.parseOrUnknown senderless)
      = .error (.missingField "sender") := by
  decide +kernel

/-- **A deposit without a sender is lost** if its dead letter is not inserted. -/
theorem senderless_not_accounted :
    ¬ Run.Always (depositWorker.step (SurrealSink.sink .exact) fun _ => none)
      depositWorker.Accounted senderlessService [.iterates (roundOf false)] := by
  rintro ⟨-, h⟩
  have hstep : depositWorker.step (SurrealSink.sink .exact) (fun _ => none) senderlessService
      (.iterates (roundOf false)) = some _ := rfl
  have hrec := (GraphWorker.accounted_step (.of_fresh fresh_senderless)
    (.of_fresh fresh_senderless) hstep).mp (h _ hstep)
  have hcan : depositWorker.CanApply (SurrealSink.sink .exact) senderlessService
      (roundOf false) := by
    refine .inl ?_
    rw [readBatch_senderless]
    decide +kernel
  have hmem : senderless ∈ depositWorker.readBatch senderlessService := by
    rw [readBatch_senderless]
    exact List.mem_singleton_self _
  obtain hdead | hrec := hrec hcan rfl senderless hmem _ project_senderless
  · exact Finmap.notMem_empty hdead
  · exact Bool.false_ne_true hrec.2.2.2

/-- A deposit without a sender is accounted for if its dead letter is inserted. -/
theorem accounted_iff_recordsFailures_senderless :
    Run.Always (depositWorker.step (SurrealSink.sink .exact) fun _ => none)
      depositWorker.Accounted senderlessService [.iterates (roundOf true)] := by
  refine (GraphWorker.accounted_iff_recordsFailures _ _ fresh_senderless _).mpr ?_
  rintro s' -
  refine ⟨fun _ _ e he err herr => ?_, trivial⟩
  rw [readBatch_senderless] at he
  obtain rfl := List.mem_singleton.mp he
  obtain rfl := Except.error.inj (project_senderless.symm.trans herr)
  exact .inr ⟨rfl, rfl, by decide +kernel, rfl⟩

end NoSender
