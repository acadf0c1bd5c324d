import IntuitionCore.Surreal.Graph

/-!
# Runs of the six workers

The workers of the graph poll one event store, each from its own checkpoint, and apply their
batches to one database in any order. A batch whose checkpoint is not saved is applied again
later on, and then may overwrite what is newer.

Still each place of the graph is what one worker has written in going through a beginning of
the events it wants. So where only one worker writes, replays are not seen once it has caught
up: two graphs that were made of the same events, in whatever order and with whatever faults,
differ at most in the tallies, and in the few fields that several workers write with values of
their own.
-/

/-- The events, the graph, and the checkpoints. -/
structure GraphWriters where
  eventStore : List StoredEvent
  db : SurrealDb := {}
  checkpoints : CheckpointStore := ∅

namespace GraphWriters

/-- What happens to the service. -/
inductive Action where
  /-- Events are appended to the event store. -/
  | grow (es : List StoredEvent)
  /-- A worker applies a batch, and saves its checkpoint or not. -/
  | work (p : GraphWriter) (batchSize : ℕ) (saved : Bool)

section Workers

variable (fmt : SurrealFormats) (payload : StoredEvent → JsonObject)

/-- The checkpoint of the worker of a projection. -/
def checkpoint (s : GraphWriters) (p : GraphWriter) : ℕ :=
  s.checkpoints.getCheckpoint p.name "surrealdb"

/-- The batch a worker would read now. -/
def readBatch (s : GraphWriters) (p : GraphWriter) (batchSize : ℕ) : List StoredEvent :=
  EventReader.readBatchMulti s.eventStore p.eventTypeStrs (s.checkpoint p) batchSize

/-- The operations of a batch; an event that cannot be projected is skipped. -/
def projectBatch (p : GraphWriter) (batch : List StoredEvent) : List SinkOperation :=
  batch.flatMap (p.operations fmt payload)

/-- Save the checkpoint of a batch. -/
def saveCheckpoint (s : GraphWriters) (p : GraphWriter) (batch : List StoredEvent) :
    GraphWriters :=
  match resolveCheckpointTarget batch with
  | some (newSequence, newBlock) =>
    { s with
      checkpoints := s.checkpoints.saveCheckpoint p.name "surrealdb" newSequence newBlock }
  | none => s

/-- A step of the service. A worker that reads nothing, or whose batch the sink does not take,
does nothing. -/
def step (s : GraphWriters) : Action → Option GraphWriters
  | .grow es =>
    if Feed.InOrder StoredEvent.sequenceNumber (s.eventStore ++ es)
        ∧ ∀ e ∈ es, 0 < e.sequenceNumber then
      some { s with eventStore := s.eventStore ++ es }
    else none
  | .work p batchSize saved =>
    let batch := s.readBatch p batchSize
    if batch.isEmpty then none
    else
      (SurrealSink.applyBatch fmt s.db (projectBatch fmt payload p batch)).map fun db =>
        if saved then { s with db }.saveCheckpoint p batch else { s with db }

/-- What a worker wants of the event store. -/
def wanted (s : GraphWriters) (p : GraphWriter) : List StoredEvent :=
  s.eventStore.filter (EventReader.wants p.eventTypeStrs)

/-- What the checkpoint of a worker has passed. -/
def passed (s : GraphWriters) (p : GraphWriter) : List StoredEvent :=
  (Feed.upTo StoredEvent.sequenceNumber (s.checkpoint p) s.eventStore).filter
    (EventReader.wants p.eventTypeStrs)

/-- A worker has nothing left to read. -/
def Done (s : GraphWriters) (p : GraphWriter) : Prop :=
  ∀ e ∈ s.eventStore, EventReader.wants p.eventTypeStrs e = true →
    e.sequenceNumber ≤ s.checkpoint p

/-- A service that has not started. -/
structure Fresh (s : GraphWriters) : Prop where
  inOrder : Feed.InOrder StoredEvent.sequenceNumber s.eventStore
  sequence_pos : ∀ e ∈ s.eventStore, 0 < e.sequenceNumber
  db_eq : s.db = {}
  checkpoints_eq : s.checkpoints = ∅

/-! ## The workers as consumers of one store -/

/-- **The workers as consumers of the event store** that share the graph. -/
def view (s : GraphWriters) : Feed.Consumers GraphWriter StoredEvent SurrealDb where
  log := s.eventStore
  mark := s.checkpoint
  store := s.db

/-- What an action is for the consumers. -/
def Action.seen : Action → Feed.Consumers.Action GraphWriter StoredEvent
  | grow es => .grow es
  | work p batchSize saved => .deliver p batchSize saved

/-- A step of the workers, as consumers. -/
abbrev consume : Feed.Consumers GraphWriter StoredEvent SurrealDb →
    Feed.Consumers.Action GraphWriter StoredEvent →
      Option (Feed.Consumers GraphWriter StoredEvent SurrealDb) :=
  Feed.Consumers.step StoredEvent.sequenceNumber (fun p => EventReader.wants p.eventTypeStrs)
    fun p db batch => SurrealSink.applyBatch fmt db (projectBatch fmt payload p batch)

variable {fmt payload} {s s' s₁ s₁' s₂ s₂' : GraphWriters} {p q : GraphWriter} {a : Action}
  {as as₁ as₂ : List Action} {place : GraphPlace}

theorem view_fresh (h : s.Fresh) : s.view.Fresh StoredEvent.sequenceNumber := by
  refine ⟨h.inOrder, h.sequence_pos, fun p => ?_⟩
  show s.checkpoints.getCheckpoint _ _ = 0
  rw [h.checkpoints_eq]
  rfl

/-- Saving a checkpoint moves the one of its worker only. -/
theorem checkpoint_saveCheckpoint {batch : List StoredEvent} (hne : batch ≠ [])
    (s : GraphWriters) (p : GraphWriter) :
    (s.saveCheckpoint p batch).checkpoint
      = Function.update s.checkpoint p (batch.getLast hne).sequenceNumber := by
  have hname : ∀ {p q : GraphWriter}, p.name = q.name → p = q := by
    intro p q h
    cases p <;> cases q <;> first | rfl | exact absurd h (by decide)
  funext q
  unfold saveCheckpoint resolveCheckpointTarget
  rw [List.getLast?_eq_some_getLast hne]
  refine (CheckpointStore.getCheckpoint_saveCheckpoint_key _ _ _ _ _ (q.name, "surrealdb")).trans
    ?_
  by_cases hq : q = p
  · subst hq
    rw [if_pos rfl, Function.update_self]
  · rw [if_neg fun h => hq (hname (congrArg Prod.fst h)), Function.update_of_ne hq]
    rfl

/-- **A step is a step of the consumers.** -/
theorem view_step (hord : Feed.InOrder StoredEvent.sequenceNumber s.eventStore)
    (h : s.step fmt payload a = some s') :
    consume fmt payload s.view a.seen = some s'.view := by
  cases a with
  | grow es =>
    obtain ⟨hes, heq⟩ := Option.ite_none_right_eq_some.mp h
    cases heq
    exact if_pos hes
  | work p batchSize saved =>
    have hread : s.readBatch p batchSize = s.view.batch StoredEvent.sequenceNumber
        (fun p => EventReader.wants p.eventTypeStrs) p batchSize :=
      EventReader.readBatchMulti_eq_poll _ _ _ hord
    obtain ⟨hempty, hstep⟩ := Option.ite_none_left_eq_some.mp h
    obtain ⟨db, hdb, rfl⟩ := Option.map_eq_some_iff.mp hstep
    have hne : s.readBatch p batchSize ≠ [] := fun hnil => hempty (by rw [hnil]; rfl)
    show Option.bind (s.view.batch _ _ p batchSize).getLast? _ = _
    rw [← hread, List.getLast?_eq_some_getLast hne, Option.bind_some]
    refine Option.map_eq_some_iff.mpr ⟨db, hdb, ?_⟩
    cases saved with
    | false => rfl
    | true =>
      have hmark := checkpoint_saveCheckpoint hne { s with db } p
      show Feed.Consumers.mk _ _ _ = Feed.Consumers.mk _ _ _
      rw [if_pos rfl, if_pos rfl, hmark]
      unfold saveCheckpoint
      split <;> rfl

/-- A step keeps the event store in order. -/
theorem inOrder_step (hord : Feed.InOrder StoredEvent.sequenceNumber s.eventStore)
    (h : s.step fmt payload a = some s') :
    Feed.InOrder StoredEvent.sequenceNumber s'.eventStore := by
  cases a with
  | grow es =>
    obtain ⟨hes, heq⟩ := Option.ite_none_right_eq_some.mp h
    cases heq
    exact hes.1
  | work p batchSize saved =>
    obtain ⟨-, hstep⟩ := Option.ite_none_left_eq_some.mp h
    obtain ⟨db, -, rfl⟩ := Option.map_eq_some_iff.mp hstep
    cases saved with
    | false => exact hord
    | true =>
      show Feed.InOrder _ (saveCheckpoint _ _ _).eventStore
      unfold saveCheckpoint
      split <;> exact hord

/-- A run is a run of the consumers. -/
theorem follow_view (h : s.Fresh) (hs : Run.follow (step fmt payload) s as = some s') :
    Run.follow (consume fmt payload) s.view (as.filterMap fun a => some a.seen) = some s'.view :=
  Run.follow_view (f := fun a : Action => some a.seen)
    (fun _ _ _ hord hstep => inOrder_step hord hstep)
    (fun _ _ _ hord hstep => view_step hord hstep) h.inOrder hs

/-! ## What a place shows -/

/-- A batch is made of operations that its projection issues. -/
theorem issues_projectBatch {batch : List StoredEvent} :
    ∀ op ∈ projectBatch fmt payload p batch, p.Issues op := by
  intro op hop
  obtain ⟨e, -, he⟩ := List.mem_flatMap.mp hop
  exact GraphWriter.issues_of_mem he

/-- A batch that is applied makes no drafts. -/
theorem noDrafts_applyBatch {db db' : SurrealDb} {batch : List StoredEvent}
    (hdrafts : db.NoDrafts)
    (h : SurrealSink.applyBatch fmt db (projectBatch fmt payload p batch) = some db') :
    db'.NoDrafts :=
  (SurrealSink.get_applyBatch hdrafts issues_projectBatch h).1

/-- A batch that is applied overwrites a place or leaves it alone. -/
theorem get_applyBatch_projectBatch {db db' : SurrealDb} {batch : List StoredEvent}
    (hdrafts : db.NoDrafts)
    (h : SurrealSink.applyBatch fmt db (projectBatch fmt payload p batch) = some db')
    (hplace : place.Overwritten) :
    db'.get place = (Feed.lastWrite (p.writes fmt payload place) batch).or (db.get place) := by
  rw [(SurrealSink.get_applyBatch hdrafts issues_projectBatch h).2 place hplace, projectBatch,
    Feed.lastWrite_flatMap]
  rfl

/-- The workers' consumers show it. -/
theorem shows_follow (h : s.Fresh) (hs : Run.follow (step fmt payload) s as = some s')
    (hplace : place.Overwritten) :
    ∃ reached, s'.view.Shows StoredEvent.sequenceNumber
      (fun p => EventReader.wants p.eventTypeStrs) (fun p => p.writes fmt payload place)
      (s'.db.get place) reached := by
  have hdb : s.view.store = {} := h.db_eq
  refine (view_fresh h).shows_follow (I := SurrealDb.NoDrafts)
    (g := fun db : SurrealDb => db.get place) ?_ ?_
    (fun p db batch db' hdrafts hbatch => ⟨noDrafts_applyBatch hdrafts hbatch,
      get_applyBatch_projectBatch hdrafts hbatch hplace⟩)
    (follow_view h hs)
  · rw [hdb]
    exact fun _ => rfl
  · rw [hdb]
    cases place <;> rfl

/-- What is last written is written by one of the writers. -/
theorem mem_writers_of_lastWrite {es : List StoredEvent} {x : GraphValue}
    (h : Feed.lastWrite (p.writes fmt payload place) es = some x) : p ∈ place.writers := by
  obtain ⟨e, -, he⟩ := Feed.exists_of_lastWrite h
  exact GraphWriter.mem_writers he

/-- **Each place of the graph shows the last write of a beginning.** In every state of a run
each worker has come through a beginning of the events it wants, with all its checkpoint has
passed; a place that is no tally is empty if none of them writes it in there, and else it is
the last write of one of them. -/
theorem graph_follow (h : s.Fresh) (hs : Run.follow (step fmt payload) s as = some s')
    (hplace : place.Overwritten) :
    ∃ reached : GraphWriter → List StoredEvent,
      (∀ p, s'.passed p <+: reached p ∧ reached p <+: s'.wanted p)
        ∧ (s'.db.get place = none →
          ∀ p, Feed.lastWrite (p.writes fmt payload place) (reached p) = none)
        ∧ ∀ x, s'.db.get place = some x → ∃ p ∈ place.writers,
          Feed.lastWrite (p.writes fmt payload place) (reached p) = some x := by
  obtain ⟨reached, hshows⟩ := shows_follow h hs hplace
  refine ⟨reached, fun p => ⟨hshows.passed_prefix p, hshows.prefix_wanted p⟩, hshows.empty,
    fun x hx => ?_⟩
  obtain ⟨p, hp⟩ := hshows.written x hx
  exact ⟨p, mem_writers_of_lastWrite hp, hp⟩

/-- Where a worker is done, it has passed all it wants. -/
theorem passed_eq_wanted (hdone : s.Done p) : s.passed p = s.wanted p := by
  show s.view.passed StoredEvent.sequenceNumber
    (fun p => EventReader.wants p.eventTypeStrs) p = _
  exact Feed.Consumers.passed_eq_wanted hdone

/-- **Where all are done**, a place is empty if no event of the log writes it, and else it is
the last write of one of the workers. -/
theorem graph_of_done (h : s.Fresh) (hs : Run.follow (step fmt payload) s as = some s')
    (hplace : place.Overwritten) (hdone : ∀ p, s'.Done p) :
    (s'.db.get place = none
        ↔ ∀ p, Feed.lastWrite (p.writes fmt payload place) (s'.wanted p) = none)
      ∧ ∀ x, s'.db.get place = some x → ∃ p ∈ place.writers,
        Feed.lastWrite (p.writes fmt payload place) (s'.wanted p) = some x := by
  obtain ⟨reached, hshows⟩ := shows_follow h hs hplace
  obtain ⟨hnone, hsome⟩ := hshows.done fun p => passed_eq_wanted (hdone p)
  refine ⟨hnone, fun x hx => ?_⟩
  obtain ⟨p, hp⟩ := hsome x hx
  exact ⟨p, mem_writers_of_lastWrite hp, hp⟩

/-! ## Graphs of the same events -/

/-- **Two graphs of the same events** differ at most in the tallies, and in the fields that are
contested: whatever became of the batches and of their checkpoints, in whatever order the
workers came to their turns, once all have caught up. -/
theorem graphs_agree (h₁ : s₁.Fresh) (h₂ : s₂.Fresh)
    (hs₁ : Run.follow (step fmt payload) s₁ as₁ = some s₁')
    (hs₂ : Run.follow (step fmt payload) s₂ as₂ = some s₂')
    (hlog : s₁'.eventStore = s₂'.eventStore) (hdone₁ : ∀ p, s₁'.Done p)
    (hdone₂ : ∀ p, s₂'.Done p) (hplace : place.Overwritten) (hcontested : ¬ place.Contested) :
    s₁'.db.get place = s₂'.db.get place := by
  have hwanted : ∀ p, s₁'.wanted p = s₂'.wanted p := fun p => by
    unfold wanted
    rw [hlog]
  obtain ⟨hnone₁, hsome₁⟩ := graph_of_done h₁ hs₁ hplace hdone₁
  obtain ⟨hnone₂, hsome₂⟩ := graph_of_done h₂ hs₂ hplace hdone₂
  have hnone : s₁'.db.get place = none ↔ s₂'.db.get place = none := by
    rw [hnone₁, hnone₂]
    simp only [hwanted]
  cases hx₁ : s₁'.db.get place with
  | none => exact (hnone.mp hx₁).symm
  | some x₁ =>
    cases hx₂ : s₂'.db.get place with
    | none => exact absurd (hx₁.symm.trans (hnone.mpr hx₂)) (Option.some_ne_none x₁)
    | some x₂ =>
      obtain ⟨p, -, hp⟩ := hsome₁ x₁ hx₁
      obtain ⟨q, -, hq⟩ := hsome₂ x₂ hx₂
      rw [hwanted] at hp
      exact congrArg some (GraphWriter.lastWrite_unique hcontested hp hq)

end Workers

/-! ## A deposit that is applied twice -/

section OneEvent

/-- A service with the first deposit there is. -/
def firstGraph : GraphWriters := { eventStore := [firstDeposit] }

/-- The deposit is applied, and the checkpoint is saved. -/
def applied : List Action := [.work .deposit 500 true]

/-- The deposit is applied, the checkpoint is not saved, and it is applied again. -/
def replayed : List Action := [.work .deposit 500 false, .work .deposit 500 true]

theorem firstGraph_fresh : firstGraph.Fresh :=
  ⟨List.pairwise_singleton _ _, by decide, rfl, rfl⟩

/-- Where the deposit has been passed, all workers are done. -/
theorem exists_follow_firstGraph {as : List Action}
    (h : (Run.follow (step .exact fun _ => ∅) firstGraph as).map
      (fun s => (s.eventStore, s.checkpoint .deposit)) = some ([firstDeposit], 1)) :
    ∃ s', Run.follow (step .exact fun _ => ∅) firstGraph as = some s'
      ∧ s'.eventStore = [firstDeposit] ∧ ∀ p, s'.Done p := by
  obtain ⟨s', hs', heq⟩ := Option.map_eq_some_iff.mp h
  obtain ⟨hstore, hckpt⟩ := Prod.mk.inj heq
  refine ⟨s', hs', hstore, fun p e he hwants => ?_⟩
  rw [hstore, List.mem_singleton] at he
  subst he
  cases p with
  | deposit => exact hckpt.ge
  | _ => exact absurd hwants (by decide)

theorem graph_follow_replayed :
    ∃ s', Run.follow (step .exact fun _ => ∅) firstGraph replayed = some s'
      ∧ ∃ reached : GraphWriter → List StoredEvent,
        ∀ p, s'.passed p <+: reached p ∧ reached p <+: s'.wanted p := by
  have hplace : (GraphPlace.field (⟨"vault", "0x07"⟩, "price")).Overwritten :=
    fun t => by cases t <;> simp [TallyId.field]
  obtain ⟨s', hs', -, -⟩ := @exists_follow_firstGraph replayed (by decide +kernel)
  obtain ⟨reached, hreached, -⟩ := graph_follow firstGraph_fresh hs' hplace
  exact ⟨s', hs', reached, hreached⟩

/-- The edge of the deposit is the same, once or twice applied. -/
theorem graphs_agree_replayed : ∃ s₁ s₂,
    Run.follow (step .exact fun _ => ∅) firstGraph applied = some s₁
      ∧ Run.follow (step .exact fun _ => ∅) firstGraph replayed = some s₂
      ∧ s₁.db.get (.edge ⟨"deposit", "0xa", "0x07", some "0xtx-0"⟩)
        = s₂.db.get (.edge ⟨"deposit", "0xa", "0x07", some "0xtx-0"⟩) := by
  obtain ⟨s₁, hs₁, hstore₁, hdone₁⟩ := @exists_follow_firstGraph applied
    (by decide +kernel)
  obtain ⟨s₂, hs₂, hstore₂, hdone₂⟩ := @exists_follow_firstGraph replayed
    (by decide +kernel)
  refine ⟨s₁, s₂, hs₁, hs₂, graphs_agree firstGraph_fresh firstGraph_fresh hs₁ hs₂
    (hstore₁.trans hstore₂.symm) hdone₁ hdone₂ (fun t ht => by cases ht) ?_⟩
  rintro ⟨id, name, hplace, -⟩
  cases hplace

end OneEvent

end GraphWriters
