import IntuitionCore.Entities.Stores
import IntuitionCore.Library.Run

/-!
# Atoms and triples converge

The worker of `core_entities` writes a batch to SurrealDB, then to `term`, then
to the KG database, and then saves its checkpoint. There is no transaction that
spans two of these writes: each may fail, and the process may stop after any of
them, and then the batch is read and written again, perhaps with more events at
its end.

All inserts settle, and the batches that are written again are read from the
same place of the same log. So whatever failed, each store is at every moment
filled from a beginning of the log that has everything the checkpoint has
passed; and where the checkpoint has passed everything, it is what it would be
had nothing failed.
-/

open Relation

/-! ## The worker -/

/-- A store that takes batches of operations on a graph; a batch that fails is
not applied. -/
structure ProjectionSink (σ : Type) where
  applyBatch : σ → List SinkOperation → Option σ

/-- SurrealDB, as a sink. -/
def SurrealSink.sink (fmt : SurrealFormats) : ProjectionSink SurrealDb where
  applyBatch := SurrealSink.applyBatch fmt

/-- The sink of an environment without SurrealDB. -/
def NoopSink : ProjectionSink Unit where
  applyBatch _ _ := some ()

/-- What the worker of `core_entities` works on: the events, the three stores,
and the checkpoints. -/
structure EntityService (σ : Type) where
  eventStore : List StoredEvent
  surreal : σ
  term : Table String TermRow := ∅
  kg : KgGraph := {}
  checkpoints : CheckpointStore := ∅

/-- The write after which the processing of a batch stops. -/
inductive WriteStop where
  | afterSurreal
  | afterTerm
  | afterKg
  deriving DecidableEq, Repr

namespace EntityService

variable {σ : Type}

/-- The checkpoint of `core_entities`. -/
def checkpoint (s : EntityService σ) : ℕ :=
  s.checkpoints.getCheckpoint CoreEntitiesProjection.name "dual"

/-- The batch the worker would read now. -/
def readBatch (batchSize : ℕ) (s : EntityService σ) : List StoredEvent :=
  EventReader.readBatchMulti s.eventStore CoreEntitiesProjection.eventTypeStrs s.checkpoint
    batchSize

/-- Save the checkpoint of a batch. -/
def saveCheckpoint (s : EntityService σ) (batch : List StoredEvent) : EntityService σ :=
  match resolveCheckpointTarget batch with
  | some (newSequence, newBlock) =>
    { s with
      checkpoints := s.checkpoints.saveCheckpoint CoreEntitiesProjection.name "dual" newSequence
        newBlock }
  | none => s

/-- The checkpoint has passed an event. -/
def HasPassed (s : EntityService σ) (e : StoredEvent) : Prop :=
  e ∈ s.eventStore ∧ EventReader.wants CoreEntitiesProjection.eventTypeStrs e = true
    ∧ e.sequenceNumber ≤ s.checkpoint

/-- The checkpoint has passed everything. -/
def Done (s : EntityService σ) : Prop :=
  ∀ e ∈ s.eventStore, EventReader.wants CoreEntitiesProjection.eventTypeStrs e = true →
    e.sequenceNumber ≤ s.checkpoint

/-- A service that has not started. SurrealDB may hold anything, and the table
of predicates may have been seeded. -/
structure Fresh (s : EntityService σ) : Prop where
  inOrder : Feed.InOrder StoredEvent.sequenceNumber s.eventStore
  sequence_pos : ∀ e ∈ s.eventStore, 0 < e.sequenceNumber
  term_eq : s.term = ∅
  kg_eq : s.kg = { predicates := s.kg.predicates }
  checkpoints_eq : s.checkpoints = ∅

/-- The event store grows by events with larger numbers. -/
def Grows (s s' : EntityService σ) : Prop :=
  ∃ es, Feed.InOrder StoredEvent.sequenceNumber (s.eventStore ++ es) ∧
    (∀ e ∈ es, 0 < e.sequenceNumber) ∧ s' = { s with eventStore := s.eventStore ++ es }

end EntityService

section Worker

variable {σ : Type} (sink : ProjectionSink σ) (fmt : SurrealFormats)
  (payload : StoredEvent → JsonObject)

/-- Apply the operations of a plan, if there are any. -/
def EntityService.applySurreal (s : EntityService σ) (surrealOps : List SinkOperation) :
    Option (EntityService σ) :=
  if surrealOps.isEmpty then some s
  else do return { s with surreal := ← sink.applyBatch s.surreal surrealOps }

/-- Process a batch up to one of its writes; nothing is written of a batch that
cannot be planned. -/
def CoreEntitiesProjection.processParsedBatch (stop : WriteStop) (s : EntityService σ)
    (events : List ParsedEvent) : Option (EntityService σ) := do
  let (surrealOps, pgPlan) ← (buildWritePlan fmt payload events).toOption
  let s₁ ← s.applySurreal sink surrealOps
  match stop with
  | .afterSurreal => return s₁
  | .afterTerm => return { s₁ with term := commitPgTransaction s₁.term pgPlan }
  | .afterKg =>
    return { s₁ with
      term := commitPgTransaction s₁.term pgPlan
      kg := ← writeKgBatch s₁.kg pgPlan }

/-- The steps of the worker of `core_entities` over a growing event store.
Whether anything may fail is a parameter. A batch of which nothing is written is
no step. -/
inductive EntityStep (mayFail : Prop) : EntityService σ → EntityService σ → Prop
  /-- Events are appended. -/
  | grows {s s' : EntityService σ} (h : s.Grows s') : EntityStep mayFail s s'
  /-- A batch is written to all stores, and its checkpoint saved. -/
  | advances {s s₁ : EntityService σ} (batchSize : ℕ) (hne : s.readBatch batchSize ≠ [])
      (h : CoreEntitiesProjection.processParsedBatch sink fmt payload .afterKg s
        (parseBatchOnce (s.readBatch batchSize)) = some s₁) :
      EntityStep mayFail s (s₁.saveCheckpoint (s.readBatch batchSize))
  /-- A batch is written to some of the stores, and its checkpoint is not
  saved. -/
  | fails {s s' : EntityService σ} (hmay : mayFail) (stop : WriteStop) (batchSize : ℕ)
      (h : CoreEntitiesProjection.processParsedBatch sink fmt payload stop s
        (parseBatchOnce (s.readBatch batchSize)) = some s') : EntityStep mayFail s s'

/-- A run of the worker. -/
def EntityRun (mayFail : Prop) : EntityService σ → EntityService σ → Prop :=
  ReflTransGen (EntityStep sink fmt payload mayFail)

end Worker

/-! ## What an event asks for -/

/-- The ids of the rows of `kg.events` tell logs apart. -/
theorem CoreEntitiesProjection.kgEventId_inj {tx tx' : String} {n n' : ℕ}
    (h : kgEventId tx n = kgEventId tx' n') : tx = tx' ∧ n = n' := by
  have hcolon : ∀ m : ℕ, ':' ∉ (Nat.toDigits 10 m).reverse := fun m hm =>
    Externals.not_mem_toDigits (by decide) m (List.mem_reverse.mp hm)
  have hlist : ∀ (t : String) (m : ℕ),
      (kgEventId t m).toList.reverse = (Nat.toDigits 10 m).reverse ++ ':' :: t.toList.reverse := by
    intro t m
    unfold kgEventId
    simp [toString, Nat.toList_repr]
  have heq := congrArg (fun s => s.toList.reverse) h
  simp only [hlist] at heq
  -- read backwards, what is before the first colon is the number
  have htake : ∀ (l r : List Char), ':' ∉ l →
      (l ++ ':' :: r).takeWhile (· ≠ ':') = l ∧ (l ++ ':' :: r).dropWhile (· ≠ ':') = ':' :: r := by
    intro l r hl
    have hall : ∀ c ∈ l, decide (c ≠ ':') = true := fun c hc =>
      decide_eq_true fun hcolon => hl (hcolon ▸ hc)
    exact ⟨by rw [List.takeWhile_append_of_pos hall]; simp,
      by rw [List.dropWhile_append_of_pos hall]; simp⟩
  have hdigits := congrArg (List.takeWhile (· ≠ ':')) heq
  have hrest := congrArg (List.dropWhile (· ≠ ':')) heq
  rw [(htake _ _ (hcolon n)).1, (htake _ _ (hcolon n')).1] at hdigits
  rw [(htake _ _ (hcolon n)).2, (htake _ _ (hcolon n')).2] at hrest
  refine ⟨String.toList_injective (List.reverse_injective (List.cons.inj hrest).2), ?_⟩
  rw [← Nat.ofDigitChars_ten_toDigits (n := n), ← Nat.ofDigitChars_ten_toDigits (n := n'),
    List.reverse_injective hdigits]

/-- An event of one of the two types is read as the record of its type, or stays
unknown. -/
theorem CoreEntitiesProjection.parseOrUnknown_of_wants {e : StoredEvent}
    (h : EventReader.wants eventTypeStrs e = true) :
    e.eventType = "AtomCreated"
        ∧ (ParsedEvent.parseOrUnknown e = .unknown e
          ∨ ∃ data, ParsedEvent.parseOrUnknown e = .atomCreated (.fromEvent e) data)
      ∨ e.eventType = "TripleCreated"
        ∧ (ParsedEvent.parseOrUnknown e = .unknown e
          ∨ ∃ data, ParsedEvent.parseOrUnknown e = .tripleCreated (.fromEvent e) data) := by
  obtain ⟨htype, -⟩ := Bool.and_eq_true_iff.mp h
  have hmem : e.eventType ∈ ["AtomCreated", "TripleCreated"] := List.contains_iff_mem.mp htype
  obtain heq | hmem := List.mem_cons.mp hmem
  · exact .inl ⟨heq, ParsedEvent.parseOrUnknown_atomCreated heq⟩
  · have heq := List.mem_singleton.mp hmem
    exact .inr ⟨heq, ParsedEvent.parseOrUnknown_tripleCreated heq⟩

/-- The key of the row of `kg.events` of an event. -/
def StoredEvent.kgEventKey (e : StoredEvent) : ℤ × String :=
  (e.blockTimestamp, CoreEntitiesProjection.kgEventId e.transactionHash e.logIndex)

/-- A row of the plan is of an event: it has the key of its log, and it is the
row of an atom or of a triple as the event is. -/
def PgTermRow.IsOf (row : PgTermRow) (e : StoredEvent) : Prop :=
  row.eventKey = e.kgEventKey
    ∧ (e.eventType = "AtomCreated" ∧ row.node?.isSome = true
      ∨ e.eventType = "TripleCreated" ∧ row.triple?.isSome = true
        ∧ row.predicateId?.isSome = true)

section Rows

open CoreEntitiesProjection

variable {fmt : SurrealFormats} {payload : StoredEvent → JsonObject} {e : StoredEvent}

/-- **An event that can be planned has one row.** -/
theorem CoreEntitiesProjection.rowsOf_eq_singleton
    (hwants : EventReader.wants eventTypeStrs e = true)
    (hplan : ∃ plan, planEvent fmt payload (ParsedEvent.parseOrUnknown e) = .ok plan) :
    ∃ row : PgTermRow, rowsOf fmt payload e = [row] ∧ row.IsOf e := by
  obtain ⟨⟨ops, rows⟩, hplan⟩ := hplan
  have hrows : rowsOf fmt payload e = rows := by
    unfold rowsOf
    rw [hplan]
  rw [hrows]
  obtain ⟨htype, hparse | ⟨data, hparse⟩⟩ | ⟨htype, hparse | ⟨data, hparse⟩⟩ :=
    parseOrUnknown_of_wants hwants
  · rw [hparse, planEvent, if_pos htype] at hplan
    simp only [Result.bind_eq_ok] at hplan
    obtain ⟨creator, -, termId, -, atomDataHex, -, hplan⟩ := hplan
    cases hplan
    exact ⟨_, rfl, rfl, .inl ⟨htype, rfl⟩⟩
  · rw [hparse] at hplan
    cases hplan
    exact ⟨_, rfl, rfl, .inl ⟨htype, rfl⟩⟩
  · have hatom : e.eventType ≠ "AtomCreated" := by
      rw [htype]
      decide
    rw [hparse, planEvent, if_neg hatom, if_pos htype] at hplan
    simp only [Result.bind_eq_ok] at hplan
    obtain ⟨creator, -, termId, -, subjectId, -, predicateId, -, objectId, -, hplan⟩ := hplan
    cases hplan
    exact ⟨_, rfl, rfl, .inr ⟨htype, rfl, rfl⟩⟩
  · rw [hparse] at hplan
    cases hplan
    exact ⟨_, rfl, rfl, .inr ⟨htype, rfl, rfl⟩⟩

/-- A row of an event of one of the two types is of the event. -/
theorem CoreEntitiesProjection.isOf_of_mem_rowsOf
    (hwants : EventReader.wants eventTypeStrs e = true) {row : PgTermRow}
    (hrow : row ∈ rowsOf fmt payload e) : row.IsOf e := by
  have hplan : ∃ plan, planEvent fmt payload (ParsedEvent.parseOrUnknown e) = .ok plan := by
    unfold rowsOf at hrow
    cases hp : planEvent fmt payload (ParsedEvent.parseOrUnknown e) with
    | error err =>
      rw [hp] at hrow
      exact absurd hrow List.not_mem_nil
    | ok plan => exact ⟨plan, rfl⟩
  obtain ⟨row', hrows, hof⟩ := rowsOf_eq_singleton hwants hplan
  rw [hrows, List.mem_singleton] at hrow
  rw [hrow]
  exact hof

variable (fmt payload) in
/-- Insert what an event asks for into `term`. -/
def CoreEntitiesProjection.recordTerm (term : Table String TermRow) (e : StoredEvent) :
    Table String TermRow :=
  (rowsOf fmt payload e).foldl insertTermPg term

variable (fmt payload) in
/-- Insert what an event asks for into the KG database. -/
def CoreEntitiesProjection.recordKg (kg : KgGraph) (e : StoredEvent) : KgGraph :=
  (rowsOf fmt payload e).foldl insertKgRow kg

theorem CoreEntitiesProjection.settles_recordTerm : Settles (recordTerm fmt payload) :=
  settles_insertTermPg.several _

theorem CoreEntitiesProjection.settles_recordKg : Settles (recordKg fmt payload) :=
  settles_insertKgRow.several _

end Rows

/-! ## The invariant -/

namespace EntityService

open CoreEntitiesProjection

variable {σ : Type} {sink : ProjectionSink σ} {fmt : SurrealFormats}
  {payload : StoredEvent → JsonObject} {mayFail : Prop} {s₀ s s' : EntityService σ}

variable (fmt payload) in
/-- **The stores are filled from the log up to the checkpoint and perhaps
beyond**, and what the checkpoint has passed could be planned. -/
structure Converging (s₀ s : EntityService σ) : Prop where
  inOrder : Feed.InOrder StoredEvent.sequenceNumber s.eventStore
  checkpoint_mem : s.checkpoint = 0 ∨ ∃ e ∈ s.eventStore, s.checkpoint = e.sequenceNumber
  planned : ∀ e, s.HasPassed e →
    ∃ plan, planEvent fmt payload (ParsedEvent.parseOrUnknown e) = .ok plan
  term_filled : Feed.Filled StoredEvent.sequenceNumber (EventReader.wants eventTypeStrs)
    (recordTerm fmt payload) s₀.term s.eventStore s.checkpoint s.term
  kg_filled : Feed.Filled StoredEvent.sequenceNumber (EventReader.wants eventTypeStrs)
    (recordKg fmt payload) s₀.kg s.eventStore s.checkpoint s.kg

theorem Converging.of_fresh (h : s₀.Fresh) : Converging fmt payload s₀ s₀ := by
  have hckpt : s₀.checkpoint = 0 := by
    unfold checkpoint
    rw [h.checkpoints_eq]
    rfl
  have hafter : ∀ e ∈ s₀.eventStore, s₀.checkpoint < e.sequenceNumber := fun e he =>
    hckpt ▸ h.sequence_pos e he
  refine ⟨h.inOrder, .inl hckpt, fun e he => ?_, .start hafter, .start hafter⟩
  exact absurd he.2.2 (Nat.not_le.mpr (hafter e he.1))

/-- The log grows after the checkpoint. -/
theorem Converging.grows (h : Converging fmt payload s₀ s) (hs : s.Grows s') :
    Converging fmt payload s₀ s' := by
  obtain ⟨es, hord, hpos, rfl⟩ := hs
  have hafter : ∀ e ∈ es, s.checkpoint < e.sequenceNumber := fun e he => by
    obtain hc | ⟨f, hf, hc⟩ := h.checkpoint_mem
    · exact hc ▸ hpos e he
    · exact hc ▸ (List.pairwise_append.mp hord).2.2 f hf e he
  refine ⟨hord, ?_, fun e he => ?_, h.term_filled.grow hafter, h.kg_filled.grow hafter⟩
  · exact h.checkpoint_mem.imp_right fun ⟨e, he, hc⟩ => ⟨e, List.mem_append_left _ he, hc⟩
  · obtain ⟨hmem, hwants, hle⟩ := he
    obtain hmem | hmem := List.mem_append.mp hmem
    · exact h.planned e ⟨hmem, hwants, hle⟩
    · exact absurd hle (Nat.not_le.mpr (hafter e hmem))

/-- What processing a batch writes: where it writes to a store, all rows of the
batch. -/
theorem processParsedBatch_eq_some {stop : WriteStop} {batch : List StoredEvent}
    (h : processParsedBatch sink fmt payload stop s (parseBatchOnce batch) = some s') :
    s'.eventStore = s.eventStore ∧ s'.checkpoints = s.checkpoints
      ∧ (s'.term = if stop = .afterSurreal then s.term
          else batch.foldl (recordTerm fmt payload) s.term)
      ∧ (s'.kg = if stop = .afterKg then batch.foldl (recordKg fmt payload) s.kg else s.kg)
      ∧ ∀ e ∈ batch, ∃ plan, planEvent fmt payload (ParsedEvent.parseOrUnknown e) = .ok plan := by
  obtain ⟨⟨ops, rows⟩, hplan, h⟩ := Option.bind_eq_some_iff.mp h
  obtain ⟨s₁, hs₁, h⟩ := Option.bind_eq_some_iff.mp h
  obtain ⟨rfl, hall⟩ := rows_of_buildWritePlanFrom (Result.toOption_eq_some.mp hplan)
  obtain ⟨surreal, rfl⟩ : ∃ surreal, s₁ = { s with surreal } := by
    unfold applySurreal at hs₁
    split at hs₁
    · cases hs₁
      exact ⟨s.surreal, rfl⟩
    · obtain ⟨surreal, -, hs₁⟩ := Option.bind_eq_some_iff.mp hs₁
      cases hs₁
      exact ⟨surreal, rfl⟩
  have hterm : commitPgTransaction s.term (batch.flatMap (rowsOf fmt payload))
      = batch.foldl (recordTerm fmt payload) s.term := List.foldl_flatMap
  cases stop with
  | afterSurreal =>
    cases h
    exact ⟨rfl, rfl, rfl, rfl, hall⟩
  | afterTerm =>
    cases h
    exact ⟨rfl, rfl, hterm, rfl, hall⟩
  | afterKg =>
    obtain ⟨kg, hkg, h⟩ := Option.bind_eq_some_iff.mp h
    cases h
    refine ⟨rfl, rfl, hterm, ?_, hall⟩
    show kg = _
    rw [writeKgBatch_eq_some hkg, if_pos rfl]
    exact List.foldl_flatMap

/-- Saving a checkpoint leaves the log and the stores alone. -/
theorem saveCheckpoint_keeps (s : EntityService σ) (batch : List StoredEvent) :
    (s.saveCheckpoint batch).eventStore = s.eventStore ∧ (s.saveCheckpoint batch).term = s.term
      ∧ (s.saveCheckpoint batch).kg = s.kg := by
  unfold saveCheckpoint
  split <;> exact ⟨rfl, rfl, rfl⟩

/-- The checkpoint of a batch is the number of its last event. -/
theorem checkpoint_saveCheckpoint (s : EntityService σ) {batch : List StoredEvent}
    (hne : batch ≠ []) :
    (s.saveCheckpoint batch).checkpoint = (batch.getLast hne).sequenceNumber := by
  unfold saveCheckpoint resolveCheckpointTarget
  rw [List.getLast?_eq_some_getLast hne]
  exact (CheckpointStore.getCheckpoint_saveCheckpoint_key _ _ _ _ _ (name, "dual")).trans
    (if_pos rfl)

/-- What the worker reads is a poll of the log. -/
theorem readBatch_eq_poll (hord : Feed.InOrder StoredEvent.sequenceNumber s.eventStore)
    (batchSize : ℕ) : s.readBatch batchSize
      = Feed.poll StoredEvent.sequenceNumber (EventReader.wants eventTypeStrs) s.checkpoint
          batchSize s.eventStore :=
  EventReader.readBatchMulti_eq_poll _ _ _ hord

/-- **A batch that is not finished leaves the stores filled.** -/
theorem Converging.fails (h : Converging fmt payload s₀ s) {stop : WriteStop} {batchSize : ℕ}
    (hs : processParsedBatch sink fmt payload stop s (parseBatchOnce (s.readBatch batchSize))
      = some s') : Converging fmt payload s₀ s' := by
  obtain ⟨hstore, hckpts, hterm, hkg, -⟩ := processParsedBatch_eq_some hs
  have hckpt : s'.checkpoint = s.checkpoint := by
    unfold checkpoint
    rw [hckpts]
  rw [readBatch_eq_poll h.inOrder] at hterm hkg
  refine ⟨hstore ▸ h.inOrder, ?_, fun e he => ?_, ?_, ?_⟩
  · rw [hckpt, hstore]
    exact h.checkpoint_mem
  · refine h.planned e ?_
    unfold HasPassed at he ⊢
    rwa [hstore, hckpt] at he
  · rw [hckpt, hstore, hterm]
    split
    · exact h.term_filled
    · exact (h.term_filled.poll settles_recordTerm h.inOrder).1
  · rw [hckpt, hstore, hkg]
    split
    · exact (h.kg_filled.poll settles_recordKg h.inOrder).1
    · exact h.kg_filled

/-- **A batch whose checkpoint is saved leaves the stores filled.** -/
theorem Converging.advances (h : Converging fmt payload s₀ s) {batchSize : ℕ}
    (hne : s.readBatch batchSize ≠ []) {s₁ : EntityService σ}
    (hs : processParsedBatch sink fmt payload .afterKg s (parseBatchOnce (s.readBatch batchSize))
      = some s₁) : Converging fmt payload s₀ (s₁.saveCheckpoint (s.readBatch batchSize)) := by
  obtain ⟨hstore, hckpts, hterm, hkg, hall⟩ := processParsedBatch_eq_some hs
  obtain ⟨hstore', hterm', hkg'⟩ := saveCheckpoint_keeps s₁ (s.readBatch batchSize)
  have hckpt := checkpoint_saveCheckpoint s₁ hne
  have hread := readBatch_eq_poll h.inOrder batchSize
  rw [hstore] at hstore'
  refine ⟨hstore' ▸ h.inOrder, .inr ⟨_, ?_, hckpt⟩, fun e he => ?_, ?_, ?_⟩
  · rw [hstore']
    exact (EventReader.mem_of_mem_readBatchMulti (List.getLast_mem hne)).1
  · -- what is passed now was passed before, or is in the batch
    obtain ⟨hmem, hwants, hle⟩ := he
    have hmem : e ∈ s.eventStore := hstore' ▸ hmem
    have hle : e.sequenceNumber ≤ ((s.readBatch batchSize).getLast hne).sequenceNumber :=
      hckpt ▸ hle
    by_cases hbefore : e.sequenceNumber ≤ s.checkpoint
    · exact h.planned e ⟨hmem, hwants, hbefore⟩
    · refine hall e (EventReader.mem_readBatchMulti_of_le_getLast
        (fun e he f hf => h.inOrder.eq_of_pos_eq he hf) hmem hwants (Nat.not_le.mp hbefore)
        (List.getLast?_eq_some_getLast hne) hle)
  · rw [hckpt, hstore', hterm', hterm, if_neg nofun]
    simp only [hread] at hne ⊢
    exact (h.term_filled.poll settles_recordTerm h.inOrder).2 hne
  · rw [hckpt, hstore', hkg', hkg, if_pos rfl]
    simp only [hread] at hne ⊢
    exact (h.kg_filled.poll settles_recordKg h.inOrder).2 hne

/-- A step, whether it fails or not, keeps the stores filled. -/
theorem Converging.step (h : Converging fmt payload s₀ s)
    (hs : EntityStep sink fmt payload mayFail s s') : Converging fmt payload s₀ s' := by
  cases hs with
  | grows hgrows => exact h.grows hgrows
  | advances batchSize hne hs => exact h.advances hne hs
  | fails hmay stop batchSize hs => exact h.fails hs

/-- **In every run the stores are filled.** -/
theorem Converging.of_run (hfresh : s₀.Fresh) (hs : EntityRun sink fmt payload mayFail s₀ s) :
    Converging fmt payload s₀ s :=
  Run.invariant (fun _ _ hx hxy => Converging.step hx hxy) hs (.of_fresh hfresh)

/-! ## What the tables hold -/

/-- A store that is filled holds the rows of a list that has those of all passed
events. -/
theorem rows_of_filled {τ : Type} {ins : τ → PgTermRow → τ} {t₀ t : τ}
    (h : Feed.Filled StoredEvent.sequenceNumber (EventReader.wants eventTypeStrs)
      (fun t e => (rowsOf fmt payload e).foldl ins t) t₀ s.eventStore s.checkpoint t) :
    ∃ rows, rows <+: (s.eventStore.filter (EventReader.wants eventTypeStrs)).flatMap
          (rowsOf fmt payload)
      ∧ (∀ e, s.HasPassed e → ∀ row ∈ rowsOf fmt payload e, row ∈ rows)
      ∧ t = rows.foldl ins t₀ := by
  obtain ⟨done, hup, hlog, rfl⟩ := h
  refine ⟨done.flatMap (rowsOf fmt payload), hlog.flatMap _, fun e he row hrow => ?_,
    List.foldl_flatMap.symm⟩
  refine List.mem_flatMap.mpr ⟨e, hup.subset ?_, hrow⟩
  obtain ⟨hmem, hwants, hle⟩ := he
  exact List.mem_filter.mpr ⟨List.mem_filter.mpr ⟨hmem, decide_eq_true hle⟩, hwants⟩

/-- **The stores have the rows of an event**: the term it names, the node or the
triple, and one row for the event itself. -/
structure HasRows (s : EntityService σ) (e : StoredEvent) (row : PgTermRow) : Prop where
  term : s.term.lookup row.termId ≠ none
  entity : e.eventType = "AtomCreated" ∧ s.kg.nodes.lookup row.termId ≠ none
    ∨ e.eventType = "TripleCreated" ∧ s.kg.triples.lookup row.termId ≠ none
  event : s.kg.events.count (fun key _ => key.2 = kgEventId e.transactionHash e.logIndex) = 1

/-- Two services have the same rows where a row of the plan inserts one. -/
structure SameRows (s s' : EntityService σ) (row : PgTermRow) : Prop where
  term : s.term.lookup row.termId = s'.term.lookup row.termId
  node : row.node? ≠ none → s.kg.nodes.lookup row.termId = s'.kg.nodes.lookup row.termId
  predicate : ∀ p, row.predicateId? = some p →
    s.kg.predicates.lookup p = s'.kg.predicates.lookup p
  triple : row.triple? ≠ none → s.kg.triples.lookup row.termId = s'.kg.triples.lookup row.termId
  event : s.kg.events.lookup row.eventKey = s'.kg.events.lookup row.eventKey

/-- The tables of the KG database are filled each with its rows. -/
theorem foldl_insertKgRow (rows : List PgTermRow) (kg : KgGraph) :
    (rows.foldl insertKgRow kg).nodes
        = rows.foldl (fun t row => t.insertEntry
            (row.node?.map fun node => (row.termId, node))) kg.nodes
      ∧ (rows.foldl insertKgRow kg).predicates
        = rows.foldl (fun t row => t.insertEntry
            (row.predicateId?.map fun p => (p, chainPredicate p))) kg.predicates
      ∧ (rows.foldl insertKgRow kg).triples
        = rows.foldl (fun t row => t.insertEntry
            (row.triple?.map fun triple => (row.termId, triple))) kg.triples
      ∧ (rows.foldl insertKgRow kg).events
        = rows.foldl (fun t row => t.insertEntry (some (row.eventKey, row.event))) kg.events :=
  ⟨(List.foldl_hom KgGraph.nodes fun _ _ => rfl).symm,
    (List.foldl_hom KgGraph.predicates fun _ _ => rfl).symm,
    (List.foldl_hom KgGraph.triples fun _ _ => rfl).symm,
    (List.foldl_hom KgGraph.events fun _ _ => rfl).symm⟩

/-- **One row of `kg.events` for each event.** -/
theorem count_events (hfresh : s₀.Fresh)
    (hdistinct : ∀ e ∈ s.eventStore, ∀ f ∈ s.eventStore,
      e.transactionHash = f.transactionHash → e.logIndex = f.logIndex → e = f)
    {rows : List PgTermRow}
    (hrows : ∀ row ∈ rows, ∃ f ∈ s.eventStore, row.IsOf f) {e : StoredEvent}
    (he : e ∈ s.eventStore) {row : PgTermRow} (hrow : row ∈ rows) (hof : row.IsOf e) :
    (rows.foldl insertKgRow s₀.kg).events.count
      (fun key _ => key.2 = kgEventId e.transactionHash e.logIndex) = 1 := by
  have hkeys : ∀ key, (rows.foldl insertKgRow s₀.kg).events.lookup key ≠ none
      ↔ ∃ row ∈ rows, row.eventKey = key := by
    intro key
    rw [(foldl_insertKgRow rows s₀.kg).2.2.2, Table.lookup_foldl_insertEntry_ne_none, hfresh.kg_eq]
    simp
  refine Table.count_eq_one (t := (rows.foldl insertKgRow s₀.kg).events)
    (p := fun key => decide (key.2 = kgEventId e.transactionHash e.logIndex))
    (k := e.kgEventKey) ((hkeys _).mpr ⟨row, hrow, hof.1⟩) (decide_eq_true rfl)
    fun key hkey hid => ?_
  obtain ⟨row', hrow', rfl⟩ := (hkeys key).mp hkey
  obtain ⟨f, hf, hof'⟩ := hrows row' hrow'
  rw [hof'.1] at hid ⊢
  obtain ⟨htx, hlog⟩ := kgEventId_inj (of_decide_eq_true hid)
  rw [hdistinct f hf e he htx hlog]

/-- **The stores have the rows of what the checkpoint has passed.** -/
theorem Converging.hasRows (h : Converging fmt payload s₀ s) (hfresh : s₀.Fresh)
    (hdistinct : ∀ e ∈ s.eventStore, ∀ f ∈ s.eventStore,
      e.transactionHash = f.transactionHash → e.logIndex = f.logIndex → e = f)
    {e : StoredEvent} (he : s.HasPassed e) :
    ∃ row, rowsOf fmt payload e = [row] ∧ s.HasRows e row := by
  obtain ⟨row, hrow, hof⟩ := rowsOf_eq_singleton he.2.1 (h.planned e he)
  have hmem : row ∈ rowsOf fmt payload e := hrow ▸ List.mem_singleton_self row
  refine ⟨row, hrow, ?_⟩
  obtain ⟨termRows, -, hpassed, hterm⟩ := rows_of_filled h.term_filled
  obtain ⟨kgRows, hlog, hpassed', hkg⟩ := rows_of_filled h.kg_filled
  obtain ⟨hnodes, -, htriples, -⟩ := foldl_insertKgRow kgRows s₀.kg
  refine ⟨?_, ?_, ?_⟩
  · rw [hterm, funext fun t => funext (insertTermPg_eq t),
      Table.lookup_foldl_insertEntry_ne_none]
    exact .inr ⟨row, hpassed e he row hmem, _, rfl⟩
  · refine hof.2.imp (And.imp_right fun hnode => ?_)
      (And.imp_right fun htriple => ?_)
    · obtain ⟨node, hnode⟩ := Option.isSome_iff_exists.mp hnode
      rw [hkg, hnodes, Table.lookup_foldl_insertEntry_ne_none]
      exact .inr ⟨row, hpassed' e he row hmem, node, by rw [hnode]; rfl⟩
    · obtain ⟨triple, htriple⟩ := Option.isSome_iff_exists.mp htriple.1
      rw [hkg, htriples, Table.lookup_foldl_insertEntry_ne_none]
      exact .inr ⟨row, hpassed' e he row hmem, triple, by rw [htriple]; rfl⟩
  · rw [hkg]
    refine count_events hfresh hdistinct (fun row' hrow' => ?_) he.1 (hpassed' e he row hmem) hof
    obtain ⟨f, hf, hrow'⟩ := List.mem_flatMap.mp (hlog.subset hrow')
    obtain ⟨hf, hwants⟩ := List.mem_filter.mp hf
    exact ⟨f, hf, isOf_of_mem_rowsOf hwants hrow'⟩

/-- **Two services over one log have the same rows where both have passed an
event.** -/
theorem Converging.sameRows (h : Converging fmt payload s₀ s) (h' : Converging fmt payload s₀ s')
    (hstore : s'.eventStore = s.eventStore) {e : StoredEvent} (he : s.HasPassed e)
    (he' : s'.HasPassed e) {row : PgTermRow} (hrow : row ∈ rowsOf fmt payload e) :
    s.SameRows s' row := by
  obtain ⟨termRows, hlog, hpassed, hterm⟩ := rows_of_filled h.term_filled
  obtain ⟨termRows', hlog', hpassed', hterm'⟩ := rows_of_filled h'.term_filled
  obtain ⟨kgRows, hkgLog, hkgPassed, hkg⟩ := rows_of_filled h.kg_filled
  obtain ⟨kgRows', hkgLog', hkgPassed', hkg'⟩ := rows_of_filled h'.kg_filled
  rw [hstore] at hlog' hkgLog'
  obtain ⟨hnodes, hpredicates, htriples, hevents⟩ := foldl_insertKgRow kgRows s₀.kg
  obtain ⟨hnodes', hpredicates', htriples', hevents'⟩ := foldl_insertKgRow kgRows' s₀.kg
  have hmem := hkgPassed e he row hrow
  have hmem' := hkgPassed' e he' row hrow
  refine ⟨?_, fun hnode => ?_, fun p hp => ?_, fun htriple => ?_, ?_⟩
  · rw [hterm, hterm', funext fun t => funext (insertTermPg_eq t)]
    exact Table.lookup_foldl_insertEntry_agree hlog hlog' ⟨row, hpassed e he row hrow, _, rfl⟩
      ⟨row, hpassed' e he' row hrow, _, rfl⟩
  · obtain ⟨node, hnode⟩ := Option.ne_none_iff_exists'.mp hnode
    rw [hkg, hkg', hnodes, hnodes']
    exact Table.lookup_foldl_insertEntry_agree hkgLog hkgLog'
      ⟨row, hmem, node, by rw [hnode]; rfl⟩ ⟨row, hmem', node, by rw [hnode]; rfl⟩
  · rw [hkg, hkg', hpredicates, hpredicates']
    exact Table.lookup_foldl_insertEntry_agree hkgLog hkgLog'
      ⟨row, hmem, chainPredicate p, by rw [hp]; rfl⟩ ⟨row, hmem', chainPredicate p, by rw [hp]; rfl⟩
  · obtain ⟨triple, htriple⟩ := Option.ne_none_iff_exists'.mp htriple
    rw [hkg, hkg', htriples, htriples']
    exact Table.lookup_foldl_insertEntry_agree hkgLog hkgLog'
      ⟨row, hmem, triple, by rw [htriple]; rfl⟩ ⟨row, hmem', triple, by rw [htriple]; rfl⟩
  · rw [hkg, hkg', hevents, hevents']
    exact Table.lookup_foldl_insertEntry_agree hkgLog hkgLog' ⟨row, hmem, _, rfl⟩
      ⟨row, hmem', _, rfl⟩

/-- **Where everything has been passed, nothing shows of what failed.** -/
theorem Converging.eq_of_done (h : Converging fmt payload s₀ s)
    (h' : Converging fmt payload s₀ s') (hstore : s'.eventStore = s.eventStore) (hdone : s.Done)
    (hdone' : s'.Done) : s.term = s'.term ∧ s.kg = s'.kg := by
  rw [h.term_filled.eq_of_read hdone, h'.term_filled.eq_of_read hdone',
    h.kg_filled.eq_of_read hdone, h'.kg_filled.eq_of_read hdone', hstore]
  exact ⟨rfl, rfl⟩

/-- **`core_entities` converges.** Whatever failed, the stores have the rows of
every event the checkpoint has passed, and those are the rows of a run in which
nothing failed; and when the checkpoint has passed everything, all rows are. -/
theorem coreEntities_converges (hfresh : s₀.Fresh)
    (hdistinct : ∀ e ∈ s.eventStore, ∀ f ∈ s.eventStore,
      e.transactionHash = f.transactionHash → e.logIndex = f.logIndex → e = f)
    (hrun : EntityRun sink fmt payload True s₀ s) :
    (∀ e, s.HasPassed e → ∃ row, rowsOf fmt payload e = [row] ∧ s.HasRows e row)
      ∧ ∀ s', EntityRun sink fmt payload False s₀ s' → s'.eventStore = s.eventStore →
        (∀ e, s.HasPassed e → s'.HasPassed e → ∀ row ∈ rowsOf fmt payload e, s.SameRows s' row)
          ∧ (s.Done → s'.Done → s.term = s'.term ∧ s.kg = s'.kg) := by
  have h := Converging.of_run hfresh hrun
  refine ⟨fun e he => h.hasRows hfresh hdistinct he, fun s' hrun' hstore => ?_⟩
  have h' := Converging.of_run hfresh hrun'
  exact ⟨fun e he he' row hrow => h.sameRows h' hstore he he' hrow,
    fun hdone hdone' => h.eq_of_done h' hstore hdone hdone'⟩

end EntityService

/-! ## An atom that is written to `term` only, and then again -/

section OneAtom

/-- The first event there is, the creation of an atom. -/
def firstAtom : StoredEvent where
  sequenceNumber := 1
  blockNumber := 100
  transactionHash := "0xtx"
  eventType := "AtomCreated"
  eventData :=
    { atomCreated := some { creator := "0xa", termId := "0x07", atomData := "0x6869",
                            atomWallet := "0xw" } }

/-- A service without SurrealDB that has the first atom to write. -/
def firstAtomService : EntityService Unit := { eventStore := [firstAtom], surreal := () }

theorem fresh_firstAtom : firstAtomService.Fresh :=
  ⟨List.pairwise_singleton _ _, by decide, rfl, rfl, rfl⟩

/-- As long as the checkpoint is not saved, the atom is read. -/
theorem readBatch_firstAtom {term : Table String TermRow} {kg : KgGraph} :
    (⟨[firstAtom], (), term, kg, ∅⟩ : EntityService Unit).readBatch 500 = [firstAtom] := by
  show EventReader.readBatchMulti [firstAtom] ["AtomCreated", "TripleCreated"] 0 500 = [firstAtom]
  decide +kernel

/-- From wherever the writes stopped, the atom is written and passed. -/
theorem advances_firstAtom (mayFail : Prop) (term : Table String TermRow) (kg : KgGraph) :
    ∃ s, EntityStep NoopSink .exact (fun _ => ∅) mayFail ⟨[firstAtom], (), term, kg, ∅⟩ s
      ∧ s.eventStore = [firstAtom] ∧ s.Done := by
  have hstep : EntityStep NoopSink .exact (fun _ => ∅) mayFail ⟨[firstAtom], (), term, kg, ∅⟩ _ :=
    .advances 500 (by rw [readBatch_firstAtom]; exact List.cons_ne_nil _ _)
      (by rw [readBatch_firstAtom]; rfl)
  rw [readBatch_firstAtom] at hstep
  refine ⟨_, hstep, rfl, fun e he hwants => ?_⟩
  rw [EntityService.checkpoint_saveCheckpoint _ (List.cons_ne_nil _ _), List.mem_singleton.mp he]
  exact le_rfl

/-- An atom that is written to `term`, and then again to all stores, is written
as it would have been at once. -/
theorem coreEntities_converges_firstAtom :
    ∃ s s', EntityRun NoopSink .exact (fun _ => ∅) True firstAtomService s
      ∧ EntityRun NoopSink .exact (fun _ => ∅) False firstAtomService s'
      ∧ (∃ row, s.HasRows firstAtom row) ∧ s.term = s'.term ∧ s.kg = s'.kg := by
  have hfails : EntityStep NoopSink .exact (fun _ => ∅) True firstAtomService _ :=
    .fails trivial .afterTerm 500
      (by rw [show firstAtomService.readBatch 500 = _ from readBatch_firstAtom]; rfl)
  obtain ⟨s, hs, hstore, hdone⟩ := advances_firstAtom True _ {}
  obtain ⟨s', hs', hstore', hdone'⟩ := advances_firstAtom False ∅ {}
  have hrun := (ReflTransGen.single hfails).tail hs
  have hdistinct : ∀ e ∈ s.eventStore, ∀ f ∈ s.eventStore,
      e.transactionHash = f.transactionHash → e.logIndex = f.logIndex → e = f := by
    rw [hstore]
    simp
  obtain ⟨hrows, hsame⟩ :=
    EntityService.coreEntities_converges fresh_firstAtom hdistinct hrun
  have hmem : firstAtom ∈ s.eventStore := hstore ▸ List.mem_singleton_self _
  obtain ⟨row, -, hrow⟩ := hrows firstAtom ⟨hmem, by decide, hdone _ hmem (by decide)⟩
  have hequal := (hsame s' (.single hs') (hstore'.trans hstore.symm)).2 hdone hdone'
  exact ⟨s, s', hrun, .single hs', ⟨row, hrow⟩, hequal⟩

end OneAtom
