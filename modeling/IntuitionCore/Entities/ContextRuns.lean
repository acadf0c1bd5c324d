import IntuitionCore.Entities.AtomContext
import IntuitionCore.Library.Run

/-!
# Context is stored once

Two workers write to the KG database: that of `core_entities`, which creates the nodes, and
that of `atom_context:dual`, which has a checkpoint of its own and needs the nodes. Their
batches come in any order, and any of them may fail.

A row of `kg.node_contexts` names the log it is from, and so does the key of a row of
`kg.events`. As the logs are distinct, whatever is there under such a key is what the event
asks for, however often it was asked for; and the checkpoint passes an event only when it
is there. A batch of which one event cannot be projected is refused as a whole.
-/

open Relation

open AtomContextDualProjection

/-- What the two workers work on. -/
structure ContextService (σ : Type) extends EntityService σ where
  nodeContexts : NodeContexts := ∅

/-- What may fail when a batch is projected: a statement, which takes the transaction back,
or the saving of the checkpoint after it. -/
inductive ContextFault where
  | statement
  | checkpoint
  deriving DecidableEq, Repr

namespace ContextService

variable {σ : Type}

/-- The checkpoint of `atom_context:dual`. -/
def contextCheckpoint (s : ContextService σ) : ℕ :=
  s.checkpoints.getCheckpoint AtomContextDualProjection.name "pg"

/-- The batch that the worker of `atom_context:dual` would read now. -/
def readContexts (batchSize : ℕ) (s : ContextService σ) : List StoredEvent :=
  EventReader.readBatchMulti s.eventStore AtomContextDualProjection.eventTypeStrs
    s.contextCheckpoint batchSize

/-- The tables of the KG database that the projection works on. -/
def tables (s : ContextService σ) : Tables := ⟨s.kg, s.nodeContexts⟩

/-- Commit a transaction. -/
def commit (s : ContextService σ) (tx : Tables) : ContextService σ :=
  { s with kg := tx.kg, nodeContexts := tx.nodeContexts }

/-- Save the checkpoint of a batch. -/
def saveContextCheckpoint (s : ContextService σ) (batch : List StoredEvent) : ContextService σ :=
  match resolveCheckpointTarget batch with
  | some (newSequence, newBlock) =>
    { s with
      checkpoints := s.checkpoints.saveCheckpoint AtomContextDualProjection.name "pg" newSequence
        newBlock }
  | none => s

/-- **The worker of `atom_context:dual` reads a batch and projects it.** What it read before
the log grew is what it would read with a smaller batch size, so the size is left open. -/
def runContextBatch (fault : Option ContextFault) (batchSize : ℕ) (s : ContextService σ) :
    ContextService σ :=
  let batch := s.readContexts batchSize
  if batch.isEmpty then s
  else
    match fault, processParsedBatch s.tables (parseBatchOnce batch) with
    | some .statement, _ => s
    | _, .error _ => s
    | some .checkpoint, .ok tx => s.commit tx
    | none, .ok tx => (s.commit tx).saveContextCheckpoint batch

/-- The checkpoint of `atom_context:dual` has passed an event. -/
def HasPassedContext (s : ContextService σ) (e : StoredEvent) : Prop :=
  e ∈ s.eventStore ∧ EventReader.wants AtomContextDualProjection.eventTypeStrs e = true
    ∧ e.sequenceNumber ≤ s.contextCheckpoint

/-- **The context of an event is stored**: for each URI the row of its position, and no other
rows of the log; and one row of `kg.events`. -/
structure HasContext (s : ContextService σ) (e : StoredEvent)
    (data : AtomContextRegisteredRecord) : Prop where
  stored : ∀ i raw, data.uris[i]? = some raw → ∃ bytes, hexBytes raw = some bytes
    ∧ s.nodeContexts.lookup (data.termId, e.transactionHash, e.logIndex, i)
      = some (contextRow (.fromEvent e) data ⟨i, hexOf bytes, textOf bytes⟩)
  no_other : ∀ key row, s.nodeContexts.lookup key = some row →
    row.transactionHash = e.transactionHash → row.logIndex = e.logIndex →
      ∃ i < data.uris.length, key = (data.termId, e.transactionHash, e.logIndex, i)
  evidence : ∃ classificationType uris, projectUris data.uris = .ok uris
    ∧ s.kg.events.lookup e.contextEventKey
      = some (evidenceRow (.fromEvent e) data classificationType uris)
  evidence_once :
    s.kg.events.count (fun key _ => key.2 = contextEventId e.transactionHash e.logIndex) = 1

end ContextService

section Runs

variable {σ : Type} (sink : ProjectionSink σ) (fmt : SurrealFormats)
  (payload : StoredEvent → JsonObject)

/-- The steps of the two workers over a growing event store, each of which may fail. -/
inductive ContextStep : ContextService σ → ContextService σ → Prop
  /-- Events are appended, or the worker of `core_entities` writes. -/
  | entities {s : ContextService σ} {s' : EntityService σ}
      (h : EntityStep sink fmt payload True s.toEntityService s') :
      ContextStep s { s with toEntityService := s' }
  /-- The worker of `atom_context:dual` runs. -/
  | contexts {s : ContextService σ} (fault : Option ContextFault) (batchSize : ℕ) :
      ContextStep s (s.runContextBatch fault batchSize)

/-- A run of the two workers. -/
def ContextRun : ContextService σ → ContextService σ → Prop :=
  ReflTransGen (ContextStep sink fmt payload)

end Runs

/-! ## What the worker of `core_entities` leaves alone -/

/-- **A service goes on from another**: its log is as long or longer, it has the rows of
`kg.events` that the other has, and what it has besides are rows of creations. -/
structure EntityService.GoesOn {σ : Type} (s s' : EntityService σ) : Prop where
  log : ∃ es, s'.eventStore = s.eventStore ++ es ∧ ∀ e ∈ es, 0 < e.sequenceNumber
  inOrder : Feed.InOrder StoredEvent.sequenceNumber s'.eventStore
  checkpoint : s'.checkpoints.getCheckpoint AtomContextDualProjection.name "pg"
    = s.checkpoints.getCheckpoint AtomContextDualProjection.name "pg"
  kept : ∀ key row, s.kg.events.lookup key = some row → s'.kg.events.lookup key = some row
  added : ∀ key row, s'.kg.events.lookup key = some row →
    s.kg.events.lookup key = some row ∨ ∃ e ∈ s.eventStore, key = e.kgEventKey

namespace EntityService

open CoreEntitiesProjection

variable {σ : Type} {sink : ProjectionSink σ} {fmt : SurrealFormats}
  {payload : StoredEvent → JsonObject} {s s' : EntityService σ}

/-- Writing a batch adds rows of `kg.events` of its events. -/
theorem adds_events (batch : List StoredEvent) (kg : KgGraph) :
    kg.events.Adds (fun key row => ∃ r ∈ batch.flatMap (rowsOf fmt payload),
      key = r.eventKey ∧ row = r.event) (batch.foldl (recordKg fmt payload) kg).events := by
  have hfold : batch.foldl (recordKg fmt payload) kg
      = (batch.flatMap (rowsOf fmt payload)).foldl insertKgRow kg := List.foldl_flatMap.symm
  rw [hfold, (foldl_insertKgRow _ kg).2.2.2]
  exact Table.Adds.foldl (fun t r _ => t.adds_insertIfAbsent ⟨rfl, rfl⟩ fun _ _ h => h.1) kg.events

/-- A batch of `core_entities`, whether finished or not. -/
theorem GoesOn.of_processParsedBatch {stop : WriteStop} {batchSize : ℕ}
    (hord : Feed.InOrder StoredEvent.sequenceNumber s.eventStore)
    (h : processParsedBatch sink fmt payload stop s (parseBatchOnce (s.readBatch batchSize))
      = some s') : s.GoesOn s' := by
  obtain ⟨hstore, hckpts, -, hkg, -⟩ := processParsedBatch_eq_some h
  have hadds := @adds_events fmt payload (s.readBatch batchSize) s.kg
  refine ⟨⟨[], by rw [hstore, List.append_nil], by simp⟩, hstore ▸ hord, by rw [hckpts],
    fun key row hrow => ?_, fun key row hrow => ?_⟩
  · rw [hkg]
    split
    · exact hadds.kept key row hrow
    · exact hrow
  · rw [hkg] at hrow
    split at hrow
    · refine (hadds.added key row hrow).imp_right ?_
      rintro ⟨r, hr, rfl, -⟩
      obtain ⟨e, he, hr⟩ := List.mem_flatMap.mp hr
      obtain ⟨hmem, hwants, -⟩ := EventReader.mem_of_mem_readBatchMulti he
      exact ⟨e, hmem, (isOf_of_mem_rowsOf hwants hr).1⟩
    · exact .inl hrow

/-- Saving its checkpoint changes nothing else. -/
theorem GoesOn.saveCheckpoint (h : s.GoesOn s') (batch : List StoredEvent) :
    s.GoesOn (s'.saveCheckpoint batch) := by
  obtain ⟨hstore, -, hkg⟩ := saveCheckpoint_keeps s' batch
  refine ⟨hstore ▸ h.log, hstore ▸ h.inOrder, ?_, hkg ▸ h.kept, hkg ▸ h.added⟩
  rw [← h.checkpoint]
  unfold EntityService.saveCheckpoint
  split
  · refine (CheckpointStore.getCheckpoint_saveCheckpoint_key _ _ _ _ _
      (AtomContextDualProjection.name, "pg")).trans (if_neg ?_)
    decide
  · rfl

/-- **A step of `core_entities` goes on from where it began.** -/
theorem GoesOn.of_step (hord : Feed.InOrder StoredEvent.sequenceNumber s.eventStore)
    (h : EntityStep sink fmt payload True s s') : s.GoesOn s' := by
  cases h with
  | grows hgrows =>
    obtain ⟨es, hes, hpos, rfl⟩ := hgrows
    exact ⟨⟨es, rfl, hpos⟩, hes, rfl, fun _ _ h => h, fun _ _ h => .inl h⟩
  | advances batchSize hne hs => exact (GoesOn.of_processParsedBatch hord hs).saveCheckpoint _
  | fails hmay stop batchSize hs => exact .of_processParsedBatch hord hs

end EntityService

/-! ## The invariant -/

/-- The ids of the rows of `kg.events` of registrations tell logs apart. -/
theorem AtomContextDualProjection.contextEventId_inj {tx tx' : String} {n n' : ℕ}
    (h : contextEventId tx n = contextEventId tx' n') : tx = tx' ∧ n = n' := by
  have hid : ∀ (t : String) (m : ℕ),
      contextEventId t m = "atom_context:" ++ CoreEntitiesProjection.kgEventId t m := fun t m => by
    unfold contextEventId CoreEntitiesProjection.kgEventId
    simp [String.append_assoc, toString]
  rw [hid, hid] at h
  exact CoreEntitiesProjection.kgEventId_inj (String.append_right_inj _ |>.mp h)

/-- The row of a registration is not under the key of a creation. -/
theorem AtomContextDualProjection.contextEventId_ne {tx tx' hash : String} {n n' : ℕ}
    (h : tx' = "0x" ++ hash) : contextEventId tx n ≠ CoreEntitiesProjection.kgEventId tx' n' := by
  subst h
  intro heq
  have hfirst := congrArg (fun id => id.toList.head?) heq
  unfold contextEventId CoreEntitiesProjection.kgEventId at hfirst
  simp [toString] at hfirst

namespace ContextService

open AtomContextDualProjection

variable {σ : Type} {sink : ProjectionSink σ} {fmt : SurrealFormats}
  {payload : StoredEvent → JsonObject} {s₀ s s' : ContextService σ}

/-- **What is stored is of events, and what has been passed is stored.** -/
structure Stored (s : ContextService σ) : Prop where
  inOrder : Feed.InOrder StoredEvent.sequenceNumber s.eventStore
  checkpoint_mem : s.contextCheckpoint = 0
    ∨ ∃ e ∈ s.eventStore, s.contextCheckpoint = e.sequenceNumber
  contexts_of : ∀ key row, s.nodeContexts.lookup key = some row →
    ∃ e ∈ s.eventStore, IsContextOf e key row
  events_of : ∀ key row, s.kg.events.lookup key = some row →
    ∃ e ∈ s.eventStore, key = e.kgEventKey ∨ IsEvidenceOf e key row
  passed : ∀ e, s.HasPassedContext e → ∃ data uris, Registers e data
    ∧ projectUris data.uris = .ok uris
    ∧ (∀ key row, IsContextOf e key row → s.nodeContexts.lookup key ≠ none)
    ∧ s.kg.events.lookup e.contextEventKey ≠ none

theorem Stored.of_fresh (h : s₀.toEntityService.Fresh) (hcontexts : s₀.nodeContexts = ∅) :
    Stored s₀ := by
  have hckpt : s₀.contextCheckpoint = 0 := by
    unfold contextCheckpoint
    rw [h.checkpoints_eq]
    rfl
  refine ⟨h.inOrder, .inl hckpt, fun key row hrow => ?_, fun key row hrow => ?_, fun e he => ?_⟩
  · rw [hcontexts] at hrow
    cases hrow
  · rw [h.kg_eq] at hrow
    cases hrow
  · exact absurd he.2.2 (hckpt ▸ Nat.not_le.mpr (h.sequence_pos e he.1))

/-- The worker of `core_entities`, and the growth of the log. -/
theorem Stored.goesOn (h : Stored s) {e : EntityService σ} (he : s.toEntityService.GoesOn e) :
    Stored { s with toEntityService := e } := by
  obtain ⟨es, hlog, hpos⟩ := he.log
  have hmem : ∀ f ∈ s.eventStore, f ∈ e.eventStore := fun f hf => by
    rw [hlog]
    exact List.mem_append_left es hf
  have hckpt : contextCheckpoint { s with toEntityService := e } = s.contextCheckpoint :=
    he.checkpoint
  refine ⟨he.inOrder, ?_, fun key row hrow => ?_, fun key row hrow => ?_, fun f hf => ?_⟩
  · rw [hckpt]
    exact h.checkpoint_mem.imp_right fun ⟨f, hf, hc⟩ => ⟨f, hmem f hf, hc⟩
  · exact (h.contexts_of key row hrow).imp fun f hf => ⟨hmem f hf.1, hf.2⟩
  · obtain hold | ⟨f, hf, hkey⟩ := he.added key row hrow
    · exact (h.events_of key row hold).imp fun f hf => ⟨hmem f hf.1, hf.2⟩
    · exact ⟨f, hmem f hf, .inl hkey⟩
  · -- what has been appended lies after the checkpoint
    obtain ⟨hf, hwants, hle⟩ := hf
    rw [hckpt] at hle
    have hold : f ∈ s.eventStore := by
      have hord := he.inOrder
      simp only [hlog] at hf hord
      obtain hf | hf := List.mem_append.mp hf
      · exact hf
      · refine absurd hle (Nat.not_le.mpr ?_)
        obtain hc | ⟨g, hg, hc⟩ := h.checkpoint_mem
        · exact hc ▸ hpos f hf
        · exact hc ▸ (List.pairwise_append.mp hord).2.2 g hg f hf
    obtain ⟨data, uris, hdata, huris, hcontexts, hevidence⟩ := h.passed f ⟨hold, hwants, hle⟩
    refine ⟨data, uris, hdata, huris, hcontexts, ?_⟩
    obtain ⟨row, hrow⟩ := Option.ne_none_iff_exists'.mp hevidence
    exact ne_of_eq_of_ne (he.kept _ row hrow) (Option.some_ne_none row)

/-- What the worker reads are registrations. -/
theorem eventType_of_mem_readContexts {batchSize : ℕ} {e : StoredEvent}
    (he : e ∈ s.readContexts batchSize) : e.eventType = "AtomContextRegistered" := by
  obtain ⟨-, hwants, -⟩ := EventReader.mem_of_mem_readBatchMulti he
  obtain ⟨htype, -⟩ := Bool.and_eq_true_iff.mp hwants
  exact List.mem_singleton.mp (List.contains_iff_mem.mp htype)

/-- **A batch that is committed is stored**; the checkpoint has not been saved. -/
theorem Stored.commit (h : Stored s) {batchSize : ℕ} {tx : Tables}
    (htx : HasStored s.tables (s.readContexts batchSize) tx) : Stored (s.commit tx) := by
  have hmem : ∀ e ∈ s.readContexts batchSize, e ∈ s.eventStore := fun e he =>
    (EventReader.mem_of_mem_readBatchMulti he).1
  refine ⟨h.inOrder, h.checkpoint_mem, fun key row hrow => ?_, fun key row hrow => ?_,
    fun e he => ?_⟩
  · obtain hold | ⟨e, he, hof⟩ := htx.contexts.added key row hrow
    · exact h.contexts_of key row hold
    · exact ⟨e, hmem e he, hof⟩
  · obtain hold | ⟨e, he, hof⟩ := htx.evidence.added key row hrow
    · exact h.events_of key row hold
    · exact ⟨e, hmem e he, .inr hof⟩
  · obtain ⟨data, uris, hdata, huris, hcontexts, hevidence⟩ := h.passed e he
    exact ⟨data, uris, hdata, huris,
      fun key row hof => htx.contexts.ne_none (hcontexts key row hof),
      htx.evidence.ne_none hevidence⟩

/-- **The checkpoint is saved of a batch that is stored.** -/
theorem Stored.saveContextCheckpoint (h : Stored s) {batchSize : ℕ} {tx : Tables}
    (htx : HasStored s.tables (s.readContexts batchSize) tx)
    (hne : s.readContexts batchSize ≠ []) :
    Stored ((s.commit tx).saveContextCheckpoint (s.readContexts batchSize)) := by
  have hcommit := h.commit htx
  have hsaved : ∃ checkpoints, (s.commit tx).saveContextCheckpoint (s.readContexts batchSize)
      = { s.commit tx with checkpoints }
      ∧ checkpoints.getCheckpoint AtomContextDualProjection.name "pg"
        = ((s.readContexts batchSize).getLast hne).sequenceNumber := by
    unfold ContextService.saveContextCheckpoint resolveCheckpointTarget
    rw [List.getLast?_eq_some_getLast hne]
    exact ⟨_, rfl, (CheckpointStore.getCheckpoint_saveCheckpoint_key _ _ _ _ _
      (AtomContextDualProjection.name, "pg")).trans (if_pos rfl)⟩
  obtain ⟨checkpoints, hsaved, hckpt⟩ := hsaved
  rw [hsaved]
  refine ⟨hcommit.inOrder, .inr ⟨_, ?_, hckpt⟩, hcommit.contexts_of, hcommit.events_of,
    fun e he => ?_⟩
  · exact (EventReader.mem_of_mem_readBatchMulti (List.getLast_mem hne)).1
  · obtain ⟨hmem, hwants, hle⟩ := he
    obtain hbefore | hbatch := (EventReader.le_getLast_iff_mem_readBatchMulti h.inOrder hne hmem
      hwants).mp (hckpt ▸ hle)
    · exact hcommit.passed e ⟨hmem, hwants, hbefore⟩
    · obtain ⟨data, uris, hdata, huris, -⟩ := htx.projectable e hbatch
      refine ⟨data, uris, hdata, huris, fun key row hof => ?_, ?_⟩
      · exact htx.contexts.present key row ⟨e, hbatch, hof⟩
      · exact htx.evidence.present _ _ ⟨e, hbatch, data, "", uris, hdata, huris, rfl, rfl⟩

/-- **A run of the worker of `atom_context:dual`** keeps what is stored. -/
theorem Stored.runContextBatch (h : Stored s) (fault : Option ContextFault) (batchSize : ℕ) :
    Stored (s.runContextBatch fault batchSize) := by
  simp only [ContextService.runContextBatch]
  by_cases hempty : (s.readContexts batchSize).isEmpty = true
  · rwa [if_pos hempty]
  rw [if_neg hempty]
  cases htx : processParsedBatch s.tables (parseBatchOnce (s.readContexts batchSize)) with
  | error err =>
    cases fault with
    | none => exact h
    | some fault => cases fault <;> exact h
  | ok tx =>
    have hstored := hasStored_processParsedBatch (fun e => eventType_of_mem_readContexts) htx
    cases fault with
    | none =>
      exact h.saveContextCheckpoint hstored fun hnil => hempty (List.isEmpty_iff.mpr hnil)
    | some fault =>
      cases fault with
      | statement => exact h
      | checkpoint => exact h.commit hstored

/-- A batch with an event that has to wait is refused. -/
theorem runContextBatch_eq_self {batchSize : ℕ}
    (h : ∃ e ∈ s.readContexts batchSize, Waits s.tables e) (fault : Option ContextFault) :
    s.runContextBatch fault batchSize = s := by
  obtain ⟨e, he, hwaits⟩ := h
  simp only [runContextBatch]
  rw [if_neg fun hempty => List.not_mem_nil (List.isEmpty_iff.mp hempty ▸ he)]
  cases htx : processParsedBatch s.tables (parseBatchOnce (s.readContexts batchSize)) with
  | error err =>
    cases fault with
    | none => rfl
    | some fault => cases fault <;> rfl
  | ok tx =>
    have hstored := hasStored_processParsedBatch (fun e => eventType_of_mem_readContexts) htx
    exact absurd (hstored.projectable e he) hwaits.not_projectable

/-- A step of either worker keeps what is stored. -/
theorem Stored.step (h : Stored s) (hs : ContextStep sink fmt payload s s') : Stored s' := by
  cases hs with
  | entities hs => exact h.goesOn (.of_step h.inOrder hs)
  | contexts fault batchSize => exact h.runContextBatch fault batchSize

/-! ## Exactly once -/

/-- **What has been passed is stored once**, if logs are distinct and their transactions are
named by hashes. -/
theorem Stored.hasContext (h : Stored s)
    (hdistinct : ∀ e ∈ s.eventStore, ∀ f ∈ s.eventStore,
      e.transactionHash = f.transactionHash → e.logIndex = f.logIndex → e = f)
    (hhash : ∀ e ∈ s.eventStore, ∃ digits, e.transactionHash = "0x" ++ digits)
    {e : StoredEvent} (he : s.HasPassedContext e) :
    ∃ data, Registers e data ∧ s.HasContext e data := by
  obtain ⟨data, uris, hdata, huris, hcontexts, hevidence⟩ := h.passed e he
  -- a row of `kg.events` with the id of this log is of this event
  have hof : ∀ key row, s.kg.events.lookup key = some row →
      key.2 = contextEventId e.transactionHash e.logIndex → IsEvidenceOf e key row := by
    intro key row hrow hid
    obtain ⟨f, hf, rfl | hof⟩ := h.events_of key row hrow
    · obtain ⟨digits, hdigits⟩ := hhash f hf
      exact absurd hid.symm (contextEventId_ne hdigits)
    · rw [hof.key_eq] at hid
      obtain ⟨htx, hlog⟩ := contextEventId_inj hid
      rwa [← hdistinct f hf e he.1 htx hlog]
  refine ⟨data, hdata, ?_, ?_, ?_, ?_⟩
  · intro i raw hi
    obtain ⟨bytes, hbytes⟩ := exists_hexBytes huris raw (List.mem_of_getElem? hi)
    have hcontext : IsContextOf e (data.termId, e.transactionHash, e.logIndex, i) _ :=
      ⟨data, i, raw, bytes, hdata, hi, hbytes, rfl, rfl⟩
    obtain ⟨row, hrow⟩ := Option.ne_none_iff_exists'.mp (hcontexts _ _ hcontext)
    obtain ⟨f, hf, hof⟩ := h.contexts_of _ row hrow
    obtain ⟨htx, hlog⟩ := hof.log_eq
    rw [← hdistinct e he.1 f hf htx hlog] at hof
    exact ⟨bytes, hbytes, hrow.trans (congrArg some (hcontext.row_eq hof))⟩
  · intro key row hrow htx hlog
    obtain ⟨f, hf, data', i, raw, bytes, hdata', hi, hbytes, rfl, rfl⟩ := h.contexts_of key row hrow
    have heq : f = e := hdistinct f hf e he.1 htx hlog
    subst heq
    obtain rfl := hdata.eq hdata'
    exact ⟨i, (List.getElem?_eq_some_iff.mp hi).1, rfl⟩
  · obtain ⟨row, hrow⟩ := Option.ne_none_iff_exists'.mp hevidence
    obtain ⟨data', classificationType, uris', hdata', huris', rfl, -⟩ := hof _ row hrow rfl
    obtain rfl := hdata.eq hdata'
    exact ⟨classificationType, uris', huris', hrow⟩
  · refine Table.count_eq_one (p := fun key =>
      decide (key.2 = contextEventId e.transactionHash e.logIndex)) hevidence (decide_eq_true rfl)
      fun key hkey hid => ?_
    obtain ⟨row, hrow⟩ := Option.ne_none_iff_exists'.mp hkey
    exact (hof key row hrow (of_decide_eq_true hid)).key_eq

/-- **The context of an atom is stored exactly once, and byte for byte.** In every run of the
two workers, whatever fails in it, every event that the checkpoint of `atom_context:dual` has
passed has its rows, and has them once; and a batch with an event that has to wait changes
nothing. -/
theorem context_stored_once (hfresh : s₀.toEntityService.Fresh) (hcontexts : s₀.nodeContexts = ∅)
    (hdistinct : ∀ e ∈ s.eventStore, ∀ f ∈ s.eventStore,
      e.transactionHash = f.transactionHash → e.logIndex = f.logIndex → e = f)
    (hhash : ∀ e ∈ s.eventStore, ∃ digits, e.transactionHash = "0x" ++ digits)
    (hrun : ContextRun sink fmt payload s₀ s) :
    (∀ e, s.HasPassedContext e → ∃ data, Registers e data ∧ s.HasContext e data)
      ∧ ∀ batchSize, (∃ e ∈ s.readContexts batchSize, Waits s.tables e) →
        ∀ fault, s.runContextBatch fault batchSize = s := by
  have hstored : Stored s :=
    Run.invariant (fun _ _ hx hxy => Stored.step hx hxy) hrun (.of_fresh hfresh hcontexts)
  exact ⟨fun e he => hstored.hasContext hdistinct hhash he,
    fun batchSize hwaits fault => runContextBatch_eq_self hwaits fault⟩

end ContextService

/-! ## Two registrations, of one of which the atom is missing -/

section TwoRegistrations

/-- The registration of three URIs for the first atom, the second of which is no text. -/
def firstContext : StoredEvent where
  sequenceNumber := 2
  blockNumber := 100
  transactionHash := "0xtx"
  logIndex := 1
  eventType := "AtomContextRegistered"
  eventData :=
    { atomContextRegistered := some { registrant := "0xa", termId := "0x07",
                                      uris := ["0x6869", "0xff", "0x6869"] } }

/-- A registration for an atom that is missing. -/
def orphanContext : StoredEvent where
  sequenceNumber := 3
  blockNumber := 100
  transactionHash := "0xtx"
  logIndex := 2
  eventType := "AtomContextRegistered"
  eventData :=
    { atomContextRegistered := some { registrant := "0xa", termId := "0x08", uris := [] } }

/-- A service that has the first atom and the two registrations to write. -/
def firstContextService : ContextService Unit where
  eventStore := [firstAtom, firstContext, orphanContext]
  surreal := ()

/-- The atom is written first. -/
theorem entities_firstContext : ∃ s₁ : EntityService Unit,
    EntityStep NoopSink .exact (fun _ => ∅) True firstContextService.toEntityService s₁
      ∧ s₁.eventStore = [firstAtom, firstContext, orphanContext]
      ∧ s₁.checkpoints.getCheckpoint AtomContextDualProjection.name "pg" = 0
      ∧ s₁.kg.nodes.lookup "0x08" = none
      ∧ (processParsedBatch ⟨s₁.kg, ∅⟩ (parseBatchOnce [firstContext])).toOption.isSome = true := by
  have hread : firstContextService.readBatch 500 = [firstAtom] := by
    show EventReader.readBatchMulti [firstAtom, firstContext, orphanContext]
      ["AtomCreated", "TripleCreated"] 0 500 = [firstAtom]
    decide +kernel
  have hatom : EntityStep NoopSink .exact (fun _ => ∅) True firstContextService.toEntityService _ :=
    .advances 500 (by rw [hread]; exact List.cons_ne_nil _ _) (by rw [hread]; rfl)
  rw [hread] at hatom
  exact ⟨_, hatom, rfl, by decide +kernel, by decide +kernel, by decide +kernel⟩

/-- The worker of `atom_context:dual` takes the registrations one by one. -/
theorem readContexts_firstContext {s : ContextService Unit}
    (hstore : s.eventStore = [firstAtom, firstContext, orphanContext]) : s.readContexts 1
      = Feed.poll StoredEvent.sequenceNumber
          (EventReader.wants AtomContextDualProjection.eventTypeStrs) s.contextCheckpoint 1
          [firstAtom, firstContext, orphanContext] := by
  unfold ContextService.readContexts
  rw [hstore]
  exact EventReader.readBatchMulti_eq_poll _ _ _ (by decide)

/-- Then the registration whose atom is there is passed. -/
theorem run_firstContext : ∃ s, ContextRun NoopSink .exact (fun _ => ∅) firstContextService s
    ∧ s.eventStore = [firstAtom, firstContext, orphanContext] ∧ s.contextCheckpoint = 2
    ∧ s.kg.nodes.lookup "0x08" = none := by
  obtain ⟨s₁, hatom, hstore, hckpt, hmissing, hsome⟩ := entities_firstContext
  obtain ⟨tx, htx⟩ := Option.isSome_iff_exists.mp hsome
  replace htx := Result.toOption_eq_some.mp htx
  have hstep : ContextStep NoopSink .exact (fun _ => ∅) firstContextService ⟨s₁, ∅⟩ :=
    .entities hatom
  have hread : (⟨s₁, ∅⟩ : ContextService Unit).readContexts 1 = [firstContext] := by
    rw [readContexts_firstContext hstore,
      show ContextService.contextCheckpoint ⟨s₁, ∅⟩ = 0 from hckpt]
    decide
  have hbatch : (⟨s₁, ∅⟩ : ContextService Unit).runContextBatch none 1
      = (ContextService.commit ⟨s₁, ∅⟩ tx).saveContextCheckpoint [firstContext] := by
    simp only [ContextService.runContextBatch]
    rw [hread, if_neg (by decide), show ContextService.tables ⟨s₁, ∅⟩ = ⟨s₁.kg, ∅⟩ from rfl, htx]
  have hstored := hasStored_processParsedBatch (by decide) htx
  refine ⟨_, (ReflTransGen.single hstep).tail (.contexts none 1), ?_⟩
  rw [hbatch]
  refine ⟨hstore, ?_, ?_⟩
  · exact (CheckpointStore.getCheckpoint_saveCheckpoint_key _ _ _ _ _
      (AtomContextDualProjection.name, "pg")).trans (if_pos rfl)
  · show tx.kg.nodes.lookup "0x08" = none
    rw [hstored.nodes]
    exact hmissing

/-- Of two registrations the one whose atom is there is stored, and the other has to wait. -/
theorem context_stored_once_firstContext :
    ∃ s, ContextRun NoopSink .exact (fun _ => ∅) firstContextService s
      ∧ (∃ data, Registers firstContext data ∧ s.HasContext firstContext data)
      ∧ ∀ fault, s.runContextBatch fault 1 = s := by
  obtain ⟨s, hrun, hstore, hckpt, hmissing⟩ := run_firstContext
  have hread : s.readContexts 1 = [orphanContext] := by
    rw [readContexts_firstContext hstore, hckpt]
    decide
  have hhash : ∀ e ∈ [firstAtom, firstContext, orphanContext],
      e.transactionHash = "0x" ++ "tx" := by
    decide
  have hfresh : firstContextService.toEntityService.Fresh := ⟨by decide, by decide, rfl, rfl, rfl⟩
  obtain ⟨hpassed, hwaits⟩ := ContextService.context_stored_once hfresh rfl
    (by rw [hstore]; decide) (fun e he => ⟨"tx", hhash e (hstore ▸ he)⟩) hrun
  refine ⟨s, hrun, hpassed firstContext ⟨?_, by decide, hckpt.ge⟩,
    hwaits 1 ⟨orphanContext, ?_, .inr ⟨_, rfl, .inr hmissing⟩⟩⟩
  · rw [hstore]
    decide
  · rw [hread]
    exact List.mem_singleton_self _

end TwoRegistrations
