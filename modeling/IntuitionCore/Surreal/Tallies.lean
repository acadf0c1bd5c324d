import IntuitionCore.Library.Tally
import IntuitionCore.Projections.Worker
import IntuitionCore.Surreal.Flows

/-!
# Tallies in the graph

The worker of a projection reads a batch, has its operations applied in one
transaction of SurrealDB, and saves its checkpoint in PostgreSQL. Where saving
fails the worker goes on, from the old checkpoint: the batch is applied again,
and what it adds is added again.

Upserts of nodes and edges can be applied any number of times. Additions cannot:
at the end of a run every tally is what all events add up to, and on top of that
what the batches whose checkpoints were not saved add up to.
-/

open Tally (total bump total_perm)

/-! ## Tallies -/

/-- A number the projections of deposits and redemptions keep. -/
inductive TallyId where
  | accountDeposited (account : String)
  | accountWithdrawn (account : String)
  | accountNet (account : String)
  | vaultDeposited (termId : String)
  | positionAmount (positionId : String)
  deriving DecidableEq, Repr

/-- The field of a record a tally is kept in. -/
def TallyId.field : TallyId → RecordId × String
  | accountDeposited account => (⟨"account", account⟩, "deposited")
  | accountWithdrawn account => (⟨"account", account⟩, "withdrawn")
  | accountNet account => (⟨"account", account⟩, "net")
  | vaultDeposited termId => (⟨"vault", termId⟩, "deposited")
  | positionAmount positionId => (⟨"position", positionId⟩, "amount")

theorem TallyId.field_mem (t : TallyId) :
    t.field.2 ∈ ["deposited", "withdrawn", "net", "amount"] := by
  cases t <;> simp [TallyId.field]

/-- A tally in a database, if there is one. -/
def SurrealDb.tally (db : SurrealDb) (t : TallyId) : Option ℚ :=
  (db.fields.lookup t.field).bind SurrealValue.number?

section Operations

variable (fmt : SurrealFormats) (t : TallyId)

/-- What an increment of a record adds to a tally. -/
def incrementOf (id : RecordId) (increment : String × SinkValue) : Option ℚ :=
  if (id, increment.1) = t.field then
    (valueToSurql fmt (normalizeIncrementField id.table increment.1 increment.2)).bind
      SurrealValue.number?
  else none

/-- What an operation adds to a tally. -/
def SinkOperation.increments : SinkOperation → List ℚ
  | incrementFields id increments => increments.filterMap (incrementOf fmt t id)
  | _ => []

/-- What operations add to a tally. -/
def incrementsOf (ops : List SinkOperation) : List ℚ :=
  ops.flatMap (SinkOperation.increments fmt t)

theorem incrementsOf_append (ops ops' : List SinkOperation) :
    incrementsOf fmt t (ops ++ ops') = incrementsOf fmt t ops ++ incrementsOf fmt t ops' :=
  List.flatMap_append

/-- Nothing is upserted that is a tally, and no drafts are deleted. -/
def SinkOperation.LeavesTallies : SinkOperation → Prop
  | upsertNode id fields => ∀ f ∈ fields, ∀ t : TallyId, (id, f.1) ≠ t.field
  | reconcileTripleDraft .. => False
  | _ => True

variable {fmt t} {db db' : SurrealDb}

/-- Adding a number to a value bumps the number it is. -/
theorem SurrealValue.number?_of_add {old : Option SurrealValue} {x sum : SurrealValue}
    (h : SurrealValue.add old x = some sum) :
    sum.number? = match x.number? with
      | some y => bump (old.bind SurrealValue.number?) y
      | none => old.bind SurrealValue.number? := by
  cases old with
  | none =>
    cases h
    cases x.number? <;> simp [bump]
  | some v =>
    cases v with
    | noneValue =>
      cases h
      cases x.number? <;> simp [bump, SurrealValue.number?]
    | int n =>
      cases x with
      | int m =>
        cases h
        exact congrArg some (Int.cast_add n m)
      | decimal y =>
        cases h
        rfl
      | _ => cases h
    | decimal y => cases x <;> cases h <;> rfl
    | _ => cases h

/-- Adding to a field adds to its tally, and leaves the others alone. -/
theorem SurrealSink.tally_incrementField {id : RecordId} {increment : String × SinkValue}
    (h : SurrealSink.incrementField fmt id db increment = some db') :
    db'.tally t = match incrementOf fmt t id increment with
      | some x => bump (db.tally t) x
      | none => db.tally t := by
  simp only [SurrealSink.incrementField, Option.bind_eq_bind, Option.bind_eq_some_iff,
    Option.pure_def, Option.some.injEq] at h
  obtain ⟨x, hx, sum, hsum, rfl⟩ := h
  unfold SurrealDb.tally incrementOf
  by_cases hkey : (id, increment.1) = t.field
  · rw [if_pos hkey, hx, ← hkey, Finmap.lookup_insert]
    exact SurrealValue.number?_of_add hsum
  · rw [if_neg hkey, Finmap.lookup_insert_of_ne _ fun h => hkey h.symm]

/-- Setting fields that are no tallies leaves the tallies alone. -/
theorem SurrealSink.tally_mergeFields {id : RecordId} {values : List (String × SurrealValue)}
    (h : ∀ v ∈ values, (id, v.1) ≠ t.field) :
    (SurrealSink.mergeFields db id values).tally t = db.tally t := by
  show ((values.foldl (fun fields v => fields.insert (id, v.1) v.2) db.fields).lookup t.field).bind
    _ = _
  unfold SurrealDb.tally
  generalize db.fields = fields
  induction values generalizing fields with
  | nil => rfl
  | cons v values ih =>
    rw [List.foldl_cons, ih fun w hw => h w (List.mem_cons_of_mem _ hw),
      Finmap.lookup_insert_of_ne _ (h v List.mem_cons_self).symm]

/-- **An operation adds its increments to a tally.** -/
theorem SurrealSink.tally_applyOp {op : SinkOperation} (hop : op.LeavesTallies)
    (h : SurrealSink.applyOp fmt db op = some db') :
    db'.tally t = (op.increments fmt t).foldl bump (db.tally t) := by
  cases op with
  | upsertNode id fields =>
    simp only [SurrealSink.applyOp, Option.bind_eq_bind, Option.bind_eq_some_iff, Option.pure_def,
      Option.some.injEq] at h
    obtain ⟨values, hvalues, rfl⟩ := h
    unfold SurrealSink.nodeValues at hvalues
    refine SurrealSink.tally_mergeFields fun v hv => ?_
    obtain ⟨f, hf, hfv⟩ := (Result.mapM_eq_some hvalues).2.1 v hv
    simp only [Option.bind_eq_bind, Option.bind_eq_some_iff, Option.pure_def,
      Option.some.injEq] at hfv
    obtain ⟨x, -, rfl⟩ := hfv
    exact hop f hf t
  | upsertEdge source edgeTable target idSuffix fields =>
    simp only [SurrealSink.applyOp, Option.bind_eq_bind, Option.bind_eq_some_iff, Option.pure_def,
      Option.some.injEq] at h
    obtain ⟨values, -, rfl⟩ := h
    rfl
  | incrementFields id increments =>
    show _ = (increments.filterMap (incrementOf fmt t id)).foldl bump _
    rw [List.foldl_filterMap]
    have hfold : increments.foldlM (SurrealSink.incrementField fmt id) db = some db' := h
    clear h
    induction increments generalizing db with
    | nil => cases hfold; rfl
    | cons increment increments ih =>
      obtain ⟨db₁, hdb₁, hrest⟩ := Option.bind_eq_some_iff.mp hfold
      rw [ih trivial hrest, List.foldl_cons, SurrealSink.tally_incrementField hdb₁]
      cases incrementOf fmt t id increment <;> rfl
  | reconcileTripleDraft => exact hop.elim

/-- **A batch adds its increments to a tally.** -/
theorem SurrealSink.tally_applyBatch {ops : List SinkOperation}
    (hops : ∀ op ∈ ops, op.LeavesTallies) (h : SurrealSink.applyBatch fmt db ops = some db') :
    db'.tally t = (incrementsOf fmt t ops).foldl bump (db.tally t) := by
  unfold SurrealSink.applyBatch at h
  induction ops generalizing db with
  | nil => cases h; rfl
  | cons op ops ih =>
    obtain ⟨db₁, hdb₁, hrest⟩ := Option.bind_eq_some_iff.mp h
    rw [ih (fun op hop => hops op (List.mem_cons_of_mem _ hop)) hrest,
      SurrealSink.tally_applyOp (hops op List.mem_cons_self) hdb₁]
    show _ = (op.increments fmt t ++ incrementsOf fmt t ops).foldl bump _
    rw [List.foldl_append]

/-- No projection upserts a tally. -/
theorem SurrealProjection.leavesTallies {payload : StoredEvent → JsonObject}
    {p : SurrealProjection} {e : StoredEvent} :
    ∀ op ∈ p.operations fmt payload e, op.LeavesTallies := by
  have hfield : ∀ (id : RecordId) (f : String), f ∉ ["deposited", "withdrawn", "net", "amount"] →
      ∀ t : TallyId, (id, f) ≠ t.field := by
    intro id f hf t h
    exact hf (h ▸ t.field_mem : (id, f).2 ∈ _)
  have haccount : ∀ a v, (SinkOperation.upsertNode a [("address", v)]).LeavesTallies :=
    fun a v => List.forall_mem_singleton.mpr (hfield a "address" (by decide))
  have hposition : ∀ q u v,
      (SinkOperation.upsertNode q [("account", u), ("vault", v)]).LeavesTallies :=
    fun q u v => List.forall_mem_cons.mpr ⟨hfield q "account" (by decide),
      List.forall_mem_singleton.mpr (hfield q "vault" (by decide))⟩
  obtain h | ⟨-, ⟨_, _, _, _, _, _, _, _, _, _, h⟩ | ⟨_, _, _, _, _, _, _, _, _, _, h⟩⟩ :=
      SurrealProjection.operations_cases fmt payload p e <;> rw [h]
  · exact fun op hop => absurd hop List.not_mem_nil
  · simp only [DepositProjection.buildDepositOpsInner, List.forall_mem_cons]
    exact ⟨haccount _ _, trivial, trivial, hposition _ _ _, trivial, trivial, nofun⟩
  · simp only [RedeemProjection.buildRedeemOpsInner, List.forall_mem_cons]
    exact ⟨haccount _ _, trivial, trivial, hposition _ _ _, trivial, trivial, nofun⟩

end Operations

/-! ## Workers -/

/-- The events, the graph, and the checkpoints. -/
structure SurrealService where
  eventStore : List StoredEvent
  db : SurrealDb := {}
  checkpoints : CheckpointStore := ∅

/-- A worker of a SurrealDB projection. -/
structure SurrealWorker where
  projection : SurrealProjection
  batchSize : ℕ

section Workers

variable (fmt : SurrealFormats) (payload : StoredEvent → JsonObject)

namespace SurrealService

/-- The checkpoint of the worker of a projection. -/
def checkpoint (s : SurrealService) (p : SurrealProjection) : ℕ :=
  s.checkpoints.getCheckpoint p.name "surrealdb"

/-- The event store grows by events with larger numbers. -/
def Grows (s s' : SurrealService) : Prop :=
  ∃ es, Feed.InOrder StoredEvent.sequenceNumber (s.eventStore ++ es) ∧
    (∀ e ∈ es, 0 < e.sequenceNumber) ∧ s' = { s with eventStore := s.eventStore ++ es }

/-- A service that has not started. -/
structure Fresh (s : SurrealService) : Prop where
  inOrder : Feed.InOrder StoredEvent.sequenceNumber s.eventStore
  sequence_pos : ∀ e ∈ s.eventStore, 0 < e.sequenceNumber
  db_eq : s.db = {}
  checkpoints_eq : s.checkpoints = ∅

/-- The workers of both projections have no event left to read. -/
def Done (s : SurrealService) : Prop :=
  ∀ p : SurrealProjection, ∀ e ∈ s.eventStore, EventReader.wants p.eventTypeStrs e = true →
    e.sequenceNumber ≤ s.checkpoint p

/-- The operations of the canonical events, those of each event once. -/
def onceEach (s : SurrealService) : List SinkOperation :=
  (s.eventStore.filter StoredEvent.isCanonical).flatMap fun e =>
    SurrealProjection.deposit.operations fmt payload e
      ++ SurrealProjection.redeem.operations fmt payload e

/-- **The tallies have counted every event exactly once.** -/
def TalliesOnce (s : SurrealService) : Prop :=
  ∀ t, s.db.tally t = total (incrementsOf fmt t (s.onceEach fmt payload))

end SurrealService

namespace SurrealWorker

variable (w : SurrealWorker)

/-- The batch a worker would read now. -/
def readBatch (s : SurrealService) : List StoredEvent :=
  EventReader.readBatchMulti s.eventStore w.projection.eventTypeStrs (s.checkpoint w.projection)
    w.batchSize

/-- The operations of a batch; an event that cannot be projected is skipped. -/
def projectBatch (batch : List StoredEvent) : List SinkOperation :=
  batch.flatMap (w.projection.operations fmt payload)

/-- Save the checkpoint of a batch. -/
def saveCheckpoint (s : SurrealService) (batch : List StoredEvent) : SurrealService :=
  match resolveCheckpointTarget batch with
  | some (newSequence, newBlock) =>
    { s with
      checkpoints := s.checkpoints.saveCheckpoint w.projection.name "surrealdb" newSequence
        newBlock }
  | none => s

/-- An iteration of the loop in which a batch is applied to the sink: the
service it leaves if its checkpoint is not saved. -/
def Applies (s s' : SurrealService) : Prop :=
  w.readBatch s ≠ [] ∧ ∃ db,
    SurrealSink.applyBatch fmt s.db (w.projectBatch fmt payload (w.readBatch s)) = some db
      ∧ s' = { s with db }

end SurrealWorker

/-- The runs of the two workers over a growing event store, with the operations
of the batches whose checkpoints were not saved. -/
inductive SurrealRun (s₀ : SurrealService) : SurrealService → List SinkOperation → Prop
  | start : SurrealRun s₀ s₀ []
  /-- Events are appended. -/
  | grows {s s' : SurrealService} {lost : List SinkOperation} (hrun : SurrealRun s₀ s lost)
      (h : s.Grows s') : SurrealRun s₀ s' lost
  /-- A batch is applied, and its checkpoint saved. -/
  | saved {s s' : SurrealService} {lost : List SinkOperation} (hrun : SurrealRun s₀ s lost)
      (w : SurrealWorker) (h : w.Applies fmt payload s s') :
      SurrealRun s₀ (w.saveCheckpoint s' (w.readBatch s)) lost
  /-- A batch is applied, and saving its checkpoint fails. -/
  | unsaved {s s' : SurrealService} {lost : List SinkOperation} (hrun : SurrealRun s₀ s lost)
      (w : SurrealWorker) (h : w.Applies fmt payload s s') :
      SurrealRun s₀ s' (lost ++ w.projectBatch fmt payload (w.readBatch s))

end Workers

/-! ## What the tallies are -/

namespace SurrealService

variable {fmt : SurrealFormats} {payload : StoredEvent → JsonObject} {s₀ s s' : SurrealService}
  {lost : List SinkOperation}

variable (fmt payload) in
/-- The operations of the events a checkpoint has passed. -/
def passed (s : SurrealService) (p : SurrealProjection) : List SinkOperation :=
  ((Feed.upTo StoredEvent.sequenceNumber (s.checkpoint p) s.eventStore).filter
    (EventReader.wants p.eventTypeStrs)).flatMap (p.operations fmt payload)

variable (fmt payload) in
/-- **The tallies are what has been passed, and what was lost on the way.** -/
structure Balanced (s : SurrealService) (lost : List SinkOperation) : Prop where
  inOrder : Feed.InOrder StoredEvent.sequenceNumber s.eventStore
  /-- A checkpoint lies before all events to come. -/
  checkpoint_mem : ∀ p, s.checkpoint p = 0 ∨ ∃ e ∈ s.eventStore, s.checkpoint p = e.sequenceNumber
  /-- What was lost are operations of events that are read. -/
  lost_mem : ∀ op ∈ lost, ∃ p : SurrealProjection, ∃ e ∈ s.eventStore,
    EventReader.wants p.eventTypeStrs e = true ∧ op ∈ p.operations fmt payload e
  /-- What the tallies are. -/
  tally_eq : ∀ t, s.db.tally t
    = total (incrementsOf fmt t (s.passed fmt payload .deposit ++ s.passed fmt payload .redeem
        ++ lost))

/-- Saving a checkpoint moves the one of its worker only. -/
theorem checkpoint_saveCheckpoint {batch : List StoredEvent} (hne : batch ≠ [])
    (w : SurrealWorker) (s : SurrealService) (p : SurrealProjection) :
    (w.saveCheckpoint s batch).checkpoint p
      = if p = w.projection then (batch.getLast hne).sequenceNumber else s.checkpoint p := by
  unfold SurrealWorker.saveCheckpoint resolveCheckpointTarget
  rw [List.getLast?_eq_some_getLast hne]
  refine (CheckpointStore.getCheckpoint_saveCheckpoint_key _ _ _ _ _ (p.name, "surrealdb")).trans
    (if_congr ⟨fun h => ?_, fun h => by rw [h]⟩ rfl rfl)
  have hname : p.name = w.projection.name := congrArg Prod.fst h
  cases p <;> cases hw : w.projection <;> rw [hw] at hname <;> first
    | rfl
    | exact absurd hname (by decide)

theorem saveCheckpoint_keeps (w : SurrealWorker) (s : SurrealService) (batch : List StoredEvent) :
    (w.saveCheckpoint s batch).eventStore = s.eventStore
      ∧ (w.saveCheckpoint s batch).db = s.db := by
  unfold SurrealWorker.saveCheckpoint
  split <;> exact ⟨rfl, rfl⟩

variable (fmt payload) in
/-- **Saving the checkpoint of a batch passes its operations.** -/
theorem passed_saveCheckpoint (hord : Feed.InOrder StoredEvent.sequenceNumber s.eventStore)
    {w : SurrealWorker} (hne : w.readBatch s ≠ []) (s₁ : SurrealService)
    (hstore : s₁.eventStore = s.eventStore) (hckpts : s₁.checkpoints = s.checkpoints)
    (p : SurrealProjection) :
    (w.saveCheckpoint s₁ (w.readBatch s)).passed fmt payload p
      = if p = w.projection then
          s.passed fmt payload p ++ w.projectBatch fmt payload (w.readBatch s)
        else s.passed fmt payload p := by
  unfold passed
  rw [(saveCheckpoint_keeps _ _ _).1, checkpoint_saveCheckpoint hne, hstore]
  by_cases hp : p = w.projection
  · subst hp
    rw [if_pos rfl, if_pos rfl]
    have hread : w.readBatch s = Feed.poll StoredEvent.sequenceNumber
        (EventReader.wants w.projection.eventTypeStrs) (s.checkpoint w.projection) w.batchSize
        s.eventStore := EventReader.readBatchMulti_eq_poll _ _ _ hord
    simp only [hread] at hne ⊢
    rw [Feed.upTo_getLast_poll hord hne, List.flatMap_append]
    rfl
  · rw [if_neg hp, if_neg hp]
    unfold checkpoint
    rw [hckpts]

/-- A batch adds its increments to the tallies. -/
theorem tally_applies {w : SurrealWorker} (h : w.Applies fmt payload s s') (t : TallyId) :
    s'.db.tally t
      = (incrementsOf fmt t (w.projectBatch fmt payload (w.readBatch s))).foldl bump
          (s.db.tally t) := by
  obtain ⟨-, db, hdb, rfl⟩ := h
  refine SurrealSink.tally_applyBatch (fun op hop => ?_) hdb
  obtain ⟨e, -, hop⟩ := List.mem_flatMap.mp hop
  exact SurrealProjection.leavesTallies op hop

/-- Before anything is read, the tallies are not there. -/
theorem Balanced.of_fresh (h : s.Fresh) : s.Balanced fmt payload [] := by
  have hckpt : ∀ p, s.checkpoint p = 0 := fun p => by
    unfold checkpoint
    rw [h.checkpoints_eq]
    rfl
  have hnil : ∀ p, s.passed fmt payload p = [] := fun p => by
    unfold passed
    rw [hckpt, Feed.upTo_eq_nil h.sequence_pos]
    rfl
  refine ⟨h.inOrder, fun p => .inl (hckpt p), nofun, fun t => ?_⟩
  rw [hnil, hnil, h.db_eq]
  rfl

/-- Growth keeps the tallies balanced. -/
theorem Balanced.grows (h : s.Balanced fmt payload lost) (hs : s.Grows s') :
    s'.Balanced fmt payload lost := by
  obtain ⟨es, hord, hpos, rfl⟩ := hs
  have hpassed : ∀ p, passed fmt payload { s with eventStore := s.eventStore ++ es } p
      = s.passed fmt payload p := fun p => by
    have hnew : ∀ e ∈ es, s.checkpoint p < e.sequenceNumber := fun e he => by
      obtain hc | ⟨f, hf, hc⟩ := h.checkpoint_mem p
      · exact hc ▸ hpos e he
      · exact hc ▸ (List.pairwise_append.mp hord).2.2 f hf e he
    show ((Feed.upTo _ (s.checkpoint p) (s.eventStore ++ es)).filter _).flatMap _ = _
    rw [Feed.upTo_append, Feed.upTo_eq_nil hnew, List.append_nil]
    rfl
  refine ⟨hord, fun p => ?_, fun op hop => ?_, fun t => ?_⟩
  · exact (h.checkpoint_mem p).imp_right fun ⟨e, he, hc⟩ => ⟨e, List.mem_append_left _ he, hc⟩
  · obtain ⟨p, e, he, hop⟩ := h.lost_mem op hop
    exact ⟨p, e, List.mem_append_left _ he, hop⟩
  · rw [hpassed, hpassed]
    exact h.tally_eq t

/-- A batch whose checkpoint is not saved is lost. -/
theorem Balanced.unsaved (h : s.Balanced fmt payload lost) {w : SurrealWorker}
    (hs : w.Applies fmt payload s s') :
    s'.Balanced fmt payload (lost ++ w.projectBatch fmt payload (w.readBatch s)) := by
  have htally := tally_applies hs
  obtain ⟨-, db, -, rfl⟩ := hs
  refine ⟨h.inOrder, h.checkpoint_mem, fun op hop => ?_, fun t => ?_⟩
  · obtain hop | hop := List.mem_append.mp hop
    · exact h.lost_mem op hop
    · obtain ⟨e, he, hop⟩ := List.mem_flatMap.mp hop
      obtain ⟨hmem, hwants, -⟩ := EventReader.mem_of_mem_readBatchMulti he
      exact ⟨w.projection, e, hmem, hwants, hop⟩
  · rw [htally, h.tally_eq, ← Tally.total_append, ← incrementsOf_append, List.append_assoc]
    rfl

/-- A batch whose checkpoint is saved is passed. -/
theorem Balanced.saved (h : s.Balanced fmt payload lost) {w : SurrealWorker}
    (hs : w.Applies fmt payload s s') :
    (w.saveCheckpoint s' (w.readBatch s)).Balanced fmt payload lost := by
  have htally := tally_applies hs
  obtain ⟨hne, db, -, rfl⟩ := hs
  obtain ⟨hstore, hdb⟩ := saveCheckpoint_keeps w { s with db } (w.readBatch s)
  have hpassed := passed_saveCheckpoint fmt payload h.inOrder hne { s with db } rfl rfl
  refine ⟨by rw [hstore]; exact h.inOrder, fun p => ?_, fun op hop => ?_, fun t => ?_⟩
  · rw [hstore, checkpoint_saveCheckpoint hne]
    by_cases hp : p = w.projection
    · rw [if_pos hp]
      exact .inr ⟨_, (EventReader.mem_of_mem_readBatchMulti (List.getLast_mem hne)).1, rfl⟩
    · rw [if_neg hp]
      exact h.checkpoint_mem p
  · rw [hstore]
    exact h.lost_mem op hop
  · -- what is passed now was at the end, and moves to the place of its projection
    rw [hdb, htally, h.tally_eq, ← Tally.total_append, ← incrementsOf_append]
    refine total_perm (List.Perm.flatMap_right _ ?_)
    rw [hpassed, hpassed]
    cases hw : w.projection with
    | deposit =>
      rw [if_pos rfl, if_neg (by decide)]
      simp only [List.append_assoc]
      refine List.Perm.append_left _ ?_
      rw [← List.append_assoc]
      exact List.perm_append_comm
    | redeem =>
      rw [if_neg (by decide), if_pos rfl]
      simp only [List.append_assoc]
      exact (List.perm_append_comm.append_left _).append_left _

/-- **Every run is balanced.** -/
theorem Balanced.of_run (hfresh : s₀.Fresh) (hrun : SurrealRun fmt payload s₀ s lost) :
    s.Balanced fmt payload lost := by
  induction hrun with
  | start => exact .of_fresh hfresh
  | grows hrun hgrows ih => exact ih.grows hgrows
  | saved hrun w happlies ih => exact ih.saved happlies
  | unsaved hrun w happlies ih => exact ih.unsaved happlies

/-- An event of another type has no operations. -/
theorem operations_eq_nil {p : SurrealProjection} {e : StoredEvent} (hcan : e.isCanonical = true)
    (h : EventReader.wants p.eventTypeStrs e = false) : p.operations fmt payload e = [] := by
  refine (SurrealProjection.operations_cases _ _ p e).resolve_right fun ⟨htype, _⟩ => ?_
  unfold EventReader.wants at h
  rw [hcan, List.contains_iff_mem.mpr htype] at h
  exact absurd h (by decide)

/-- The operations of the events of a log that a projection wants are those of
the canonical ones. -/
theorem flatMap_operations (p : SurrealProjection) (log : List StoredEvent) :
    (log.filter (EventReader.wants p.eventTypeStrs)).flatMap (p.operations fmt payload)
      = (log.filter StoredEvent.isCanonical).flatMap (p.operations fmt payload) := by
  induction log with
  | nil => rfl
  | cons e log ih =>
    rw [List.filter_cons, List.filter_cons]
    cases hcan : e.isCanonical with
    | false =>
      have hwants : EventReader.wants p.eventTypeStrs e = false := by
        unfold EventReader.wants
        rw [hcan, Bool.and_false]
      rw [hwants]
      exact ih
    | true =>
      cases hwants : EventReader.wants p.eventTypeStrs e with
      | false =>
        simp only [if_true, Bool.false_eq_true, if_false, List.flatMap_cons,
          operations_eq_nil hcan hwants, List.nil_append]
        exact ih
      | true =>
        simp only [if_true, List.flatMap_cons]
        rw [ih]

/-- What both workers have passed in the end is every event once. -/
theorem passed_perm_onceEach (hdone : s.Done) :
    (s.passed fmt payload .deposit ++ s.passed fmt payload .redeem).Perm
      (s.onceEach fmt payload) := by
  have hpassed : ∀ p, s.passed fmt payload p
      = (s.eventStore.filter StoredEvent.isCanonical).flatMap (p.operations fmt payload) := by
    intro p
    unfold passed
    rw [← Feed.upTo_filter, Feed.upTo_eq_self, flatMap_operations]
    intro e he
    obtain ⟨hmem, hwants⟩ := List.mem_filter.mp he
    exact hdone p e hmem hwants
  rw [hpassed, hpassed]
  exact List.flatMap_append_perm _ _ _

/-- **In the end, a tally is what every event adds to it, and what the lost
batches add to it.** -/
theorem Balanced.tally_of_done (h : s.Balanced fmt payload lost) (hdone : s.Done) (t : TallyId) :
    s.db.tally t
      = total (incrementsOf fmt t (s.onceEach fmt payload) ++ incrementsOf fmt t lost) := by
  rw [h.tally_eq, ← incrementsOf_append]
  exact total_perm (((passed_perm_onceEach hdone).append_right lost).flatMap_right _)

/-- What was lost is among what every event does. -/
theorem Balanced.lost_subset (h : s.Balanced fmt payload lost) {op : SinkOperation}
    (hop : op ∈ lost) : op ∈ s.onceEach fmt payload := by
  obtain ⟨p, e, he, hwants, hop⟩ := h.lost_mem op hop
  unfold EventReader.wants at hwants
  refine List.mem_flatMap.mpr ⟨e, List.mem_filter.mpr ⟨he, Bool.and_elim_right hwants⟩, ?_⟩
  cases p with
  | deposit => exact List.mem_append_left _ hop
  | redeem => exact List.mem_append_right _ hop

/-- **The tallies have counted every event exactly once if and only if the
batches whose checkpoints were not saved add up to nothing.** -/
theorem talliesOnce_iff (hfresh : s₀.Fresh) (hrun : SurrealRun fmt payload s₀ s lost)
    (hdone : s.Done) :
    s.TalliesOnce fmt payload ↔ ∀ t, (incrementsOf fmt t lost).sum = 0 := by
  have hbalanced := Balanced.of_run hfresh hrun
  refine forall_congr' fun t => ?_
  rw [hbalanced.tally_of_done hdone]
  refine Tally.total_append_eq_iff fun hnil => ?_
  -- a tally that no event adds to is not added to again
  refine List.flatMap_eq_nil_iff.mpr fun op hop => ?_
  exact List.flatMap_eq_nil_iff.mp hnil op (hbalanced.lost_subset hop)

end SurrealService

/-! ## A deposit that is counted twice -/

section OneEvent

/-- The worker of deposits. -/
def graphWorker : SurrealWorker := ⟨.deposit, 500⟩

/-- The operations of the first deposit. -/
def firstDepositOps : List SinkOperation :=
  SurrealProjection.deposit.operations .exact (fun _ => ∅) firstDeposit

theorem readBatch_firstDeposit {db : SurrealDb} :
    graphWorker.readBatch ⟨[firstDeposit], db, ∅⟩ = [firstDeposit] := by
  show EventReader.readBatchMulti [firstDeposit] ["Deposited"] 0 500 = [firstDeposit]
  decide +kernel

theorem projectBatch_firstDeposit {db : SurrealDb} :
    graphWorker.projectBatch .exact (fun _ => ∅)
      (graphWorker.readBatch ⟨[firstDeposit], db, ∅⟩) = firstDepositOps := by
  rw [readBatch_firstDeposit]
  exact List.append_nil _

/-- The first deposit can be applied once, and twice. -/
theorem exists_applyBatch_firstDeposit :
    ∃ db, SurrealSink.applyBatch .exact {} firstDepositOps = some db
      ∧ ∃ db', SurrealSink.applyBatch .exact db firstDepositOps = some db' := by
  have h : ((SurrealSink.applyBatch .exact {} firstDepositOps).bind fun db =>
      SurrealSink.applyBatch .exact db firstDepositOps).isSome = true := by decide +kernel
  obtain ⟨db', h⟩ := Option.isSome_iff_exists.mp h
  obtain ⟨db, hdb, hdb'⟩ := Option.bind_eq_some_iff.mp h
  exact ⟨db, hdb, db', hdb'⟩

theorem applies_firstDeposit {db db' : SurrealDb}
    (h : SurrealSink.applyBatch .exact db firstDepositOps = some db') :
    graphWorker.Applies .exact (fun _ => ∅) ⟨[firstDeposit], db, ∅⟩
      ⟨[firstDeposit], db', ∅⟩ := by
  refine ⟨by rw [readBatch_firstDeposit]; exact List.cons_ne_nil _ _, db', ?_, rfl⟩
  rw [projectBatch_firstDeposit]
  exact h

theorem fresh_firstDeposit : (⟨[firstDeposit], {}, ∅⟩ : SurrealService).Fresh :=
  ⟨List.pairwise_singleton _ _, by decide, rfl, rfl⟩

/-- Saving the checkpoint of the first deposit, it is done. -/
theorem done_firstDeposit (db : SurrealDb) :
    (graphWorker.saveCheckpoint ⟨[firstDeposit], db, ∅⟩ [firstDeposit]).Done := by
  intro p e he hwants
  rw [List.mem_singleton.mp he] at hwants ⊢
  rw [SurrealService.checkpoint_saveCheckpoint (List.cons_ne_nil _ _)]
  cases p with
  | deposit => exact le_rfl
  | redeem => exact absurd hwants (by decide)

/-- A deposit that is applied once is counted once. -/
theorem talliesOnce_firstDeposit :
    ∃ s, SurrealRun .exact (fun _ => ∅) ⟨[firstDeposit], {}, ∅⟩ s [] ∧ s.Done
      ∧ s.TalliesOnce .exact fun _ => ∅ := by
  obtain ⟨db, hdb, -⟩ := exists_applyBatch_firstDeposit
  have hrun := SurrealRun.saved .start graphWorker (applies_firstDeposit hdb)
  rw [readBatch_firstDeposit] at hrun
  refine ⟨_, hrun, done_firstDeposit db, ?_⟩
  exact (SurrealService.talliesOnce_iff fresh_firstDeposit hrun (done_firstDeposit db)).mpr
    fun t => rfl

/-- **A deposit whose checkpoint is not saved is counted twice.** -/
theorem unsaved_deposit_not_talliesOnce :
    ∃ s lost, SurrealRun .exact (fun _ => ∅) ⟨[firstDeposit], {}, ∅⟩ s lost ∧ s.Done
      ∧ ¬ s.TalliesOnce .exact fun _ => ∅ := by
  obtain ⟨db, hdb, db', hdb'⟩ := exists_applyBatch_firstDeposit
  have hlost := SurrealRun.unsaved .start graphWorker (applies_firstDeposit hdb)
  have hrun := SurrealRun.saved hlost graphWorker (applies_firstDeposit hdb')
  rw [readBatch_firstDeposit] at hrun
  have hdone := done_firstDeposit db'
  refine ⟨_, _, hrun, hdone, fun honce => ?_⟩
  -- the sender has deposited twenty, and not ten
  have htally := (SurrealService.Balanced.of_run fresh_firstDeposit hrun).tally_of_done hdone
    (.accountDeposited "0xa")
  rw [honce] at htally
  revert htally
  show total (incrementsOf .exact _ (([firstDeposit].filter _).flatMap _))
    = total (incrementsOf .exact _ (([firstDeposit].filter _).flatMap _)
        ++ incrementsOf .exact _ ([] ++ graphWorker.projectBatch _ _
          (graphWorker.readBatch ⟨[firstDeposit], {}, ∅⟩))) → False
  rw [projectBatch_firstDeposit]
  decide +kernel

end OneEvent
