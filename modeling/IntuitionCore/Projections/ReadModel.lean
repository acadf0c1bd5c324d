import IntuitionCore.Library.Redelivery
import IntuitionCore.Projections.Worker

/-!
# Read models and their ledgers

A read model is a family of rows of the databases together with the ledger
that says what the rows are. A projection owns some of its keys: a batch
applies the events of these keys to their rows, and leaves the other rows
alone. That is all a proof about read models wants to know of the projections,
and `ReadModel` is its statement.

What follows is the simulation: the iterations of workers are steps of readers
of an ordered log, with the checkpoints as marks, as long as no key is owned by
two workers.
-/

open Relation

/-- What an event counts for: what it is read as if it is canonical, and
nothing otherwise. -/
def StoredEvent.counted (e : StoredEvent) : ParsedEvent :=
  if e.isCanonical then ParsedEvent.parseOrUnknown e else .unknown e

/-- An event that counts as one of a type is read by those who read the type. -/
theorem StoredEvent.wants_of_counted {e : StoredEvent} {t : EventType} {ts : List EventType}
    (htype : e.counted.type? = some t) (ht : t ∈ ts) :
    EventReader.wants (ts.map EventType.asStr) e = true := by
  unfold StoredEvent.counted at htype
  by_cases hcan : e.isCanonical = true
  · rw [if_pos hcan] at htype
    have hmem : e.eventType ∈ ts.map EventType.asStr :=
      ParsedEvent.eventType_of_type? htype ▸ List.mem_map_of_mem ht
    unfold EventReader.wants
    rw [hcan, List.contains_iff_mem.mpr hmem]
    rfl
  · rw [if_neg hcan] at htype
    cases htype

/-- A worker as a reader of a log: the name of its checkpoint, the events it
reads, and how many of them. -/
def PgWorker.reader (w : PgWorker) : Feed.Reader StoredEvent String where
  name := w.projection.checkpointName
  wants := EventReader.wants w.eventTypeStrs
  size := w.batchSize

/-- Rows of the databases that projections maintain event by event. -/
structure ReadModel (ext : Externals) (κ ρ : Type) [DecidableEq κ] where
  /-- What the rows are. -/
  ledger : Ledger ParsedEvent κ ρ
  /-- Where the rows are. -/
  rows : Stores → κ → ρ
  /-- Whether a projection maintains a row. -/
  owns : PgProjection → κ → Bool
  /-- Empty databases hold the initial rows. -/
  rows_start : ∀ k, rows {} k = ledger.init
  /-- A batch is applied to the rows the projection owns. -/
  rows_process : ∀ {p pool pool' events}, p.processParsedBatch ext pool events = .ok pool' →
    ∀ k, rows pool' k = if owns p k then ledger.apply k (rows pool k) events else rows pool k
  /-- A projection consumes the events of the rows it owns. -/
  consumed : ∀ {p k e}, owns p k = true → ledger.concerns k e = true →
    ∃ t ∈ p.eventTypes, e.type? = some t

namespace ReadModel

variable {ext : Externals} {κ ρ : Type} [DecidableEq κ] (m : ReadModel ext κ ρ)

/-- The ledger of the canonical events of the event store. -/
def history : Ledger StoredEvent κ ρ := m.ledger.comap StoredEvent.counted

/-- No row is maintained by two of some projections. -/
def Solo (ps : List PgProjection) : Prop :=
  ∀ k, ∀ p ∈ ps, ∀ q ∈ ps, m.owns p k = true → m.owns q k = true → p = q

/-- The name of the worker that maintains a row, among those of some
projections. -/
def owner (ps : List PgProjection) (k : κ) : Option String :=
  (ps.find? fun p => m.owns p k).map PgProjection.checkpointName

/-- A service as a reader of the ledger sees it. -/
def feed (ps : List PgProjection) (s : Service) : Feed.State StoredEvent κ ρ String where
  log := s.eventStore
  mark name := s.checkpoints.getCheckpoint name "pg"
  owner := m.owner ps
  rows := m.rows s.stores

/-- Columns of a read model that depend on these columns only. -/
def columns {σ : Type} (f : ρ → σ) (step : σ → ParsedEvent → σ)
    (h : ∀ r e, f (m.ledger.step r e) = step (f r) e) : ReadModel ext κ σ where
  ledger := m.ledger.columns f step
  rows pool k := f (m.rows pool k)
  owns := m.owns
  rows_start k := congrArg f (m.rows_start k)
  rows_process hp k := by
    rw [m.rows_process hp k, apply_ite f]
    exact if_congr Iff.rfl (m.ledger.columns_apply h).symm rfl
  consumed hp hk := m.consumed hp hk

variable {m} {ps : List PgProjection} {w : PgWorker} {s s' : Service} {k : κ}

/-- Projections whose marks have different names. -/
def NamesDistinct (ps : List PgProjection) : Prop :=
  ∀ p ∈ ps, ∀ q ∈ ps, p.checkpointName = q.checkpointName → p = q

theorem history_row (log : List StoredEvent) (k : κ) :
    m.history.row log k = m.ledger.row (log.map StoredEvent.counted) k :=
  m.ledger.comap_apply _ _

/-- The events that the owner of a row has processed. -/
theorem processed_feed (pos : StoredEvent → ℕ) : (m.feed ps s).processed pos k
    = Feed.upToOwner pos (m.feed ps s).log (m.feed ps s).mark (m.owner ps k) := rfl

theorem owner_eq_none (h : ∀ p ∈ ps, m.owns p k = false) : m.owner ps k = none := by
  unfold owner
  rw [List.find?_eq_none.mpr fun p hp => by rw [h p hp]; exact Bool.false_ne_true]
  rfl

/-- A row is maintained by the worker of the projection that owns it. -/
theorem owner_eq_some_iff (hnames : NamesDistinct ps) (hsolo : m.Solo ps) {p : PgProjection}
    (hp : p ∈ ps) : m.owner ps k = some p.checkpointName ↔ m.owns p k = true := by
  unfold owner
  constructor
  · intro h
    obtain ⟨q, hq, hname⟩ := Option.map_eq_some_iff.mp h
    have hqk := List.find?_some hq
    obtain rfl : q = p := hnames q (List.mem_of_find?_eq_some hq) p hp hname
    exact hqk
  · intro h
    obtain ⟨q, hq⟩ : ∃ q, ps.find? (fun p => m.owns p k) = some q :=
      Option.isSome_iff_exists.mp (List.find?_isSome.mpr ⟨p, hp, h⟩)
    have hqk := List.find?_some hq
    obtain rfl : q = p := hsolo k q (List.mem_of_find?_eq_some hq) p hp hqk h
    rw [hq]
    rfl

/-- A batch of one event is one step of the row it concerns. -/
theorem rows_process_one {p : PgProjection} {pool pool' : Stores} {e : ParsedEvent}
    (h : p.processParsedBatch ext pool [e] = .ok pool') (hk : m.ledger.concerns k e = true) :
    m.rows pool' k = if m.owns p k then m.ledger.step (m.rows pool k) e else m.rows pool k := by
  rw [m.rows_process h k, Ledger.apply_cons, if_pos hk, Ledger.apply_nil]

/-! ## The iterations of workers are steps of readers -/

theorem readBatch_eq_pollOf (h : Feed.InOrder StoredEvent.sequenceNumber s.eventStore) :
    w.readBatch s = (m.feed ps s).pollOf StoredEvent.sequenceNumber w.reader :=
  EventReader.readBatchMulti_eq_poll _ _ _ h

/-- A worker reads every event that counts for a row its projection owns. -/
theorem wants_of_owns {e : StoredEvent} (howns : m.owns w.projection k = true)
    (hc : m.history.concerns k e = true) : EventReader.wants w.eventTypeStrs e = true := by
  obtain ⟨t, ht, htype⟩ := m.consumed howns hc
  exact StoredEvent.wants_of_counted htype ht

/-- A worker reads every event that counts for a row it maintains. -/
theorem covers (hnames : NamesDistinct ps) (hsolo : m.Solo ps) (hw : w.projection ∈ ps) :
    (m.feed ps s).Covers m.history w.reader :=
  fun _ hk _ _ hc => wants_of_owns ((owner_eq_some_iff hnames hsolo hw).mp hk) hc

/-- What a worker parses is what counts. -/
theorem parseBatchOnce_readBatch :
    parseBatchOnce (w.readBatch s) = (w.readBatch s).map StoredEvent.counted := by
  refine List.map_congr_left fun e he => ?_
  have hwants := (EventReader.mem_of_mem_readBatchMulti he).2.1
  unfold EventReader.wants at hwants
  exact (if_pos (Bool.and_elim_right hwants)).symm

/-- A batch that is applied is applied to the rows its worker maintains. -/
theorem feed_applyBatch (hnames : NamesDistinct ps) (hsolo : m.Solo ps)
    (hw : w.projection ∈ ps) (hok : w.applyBatch ext s (w.readBatch s) = .ok s') :
    m.feed ps s' = (m.feed ps s).applyBatch m.history w.reader.name (w.readBatch s) := by
  unfold PgWorker.applyBatch at hok
  obtain ⟨pool, hpool, hs'⟩ := Result.bind_eq_ok.mp hok
  cases hs'
  unfold feed Feed.State.applyBatch
  congr 1
  funext k
  show m.rows pool k = if m.owner ps k = some w.projection.checkpointName then _ else _
  rw [m.rows_process hpool k, parseBatchOnce_readBatch, history, Ledger.comap_apply]
  exact if_congr (owner_eq_some_iff hnames hsolo hw).symm rfl rfl

/-- A checkpoint that is saved is a mark that is moved. -/
theorem feed_saveCheckpoint {batch : List StoredEvent} (hne : batch ≠ []) :
    m.feed ps (w.saveCheckpoint s batch)
      = (m.feed ps s).setMark w.reader.name (batch.getLast hne).sequenceNumber := by
  unfold PgWorker.saveCheckpoint resolveCheckpointTarget
  rw [List.getLast?_eq_some_getLast hne]
  unfold feed Feed.State.setMark
  congr 1
  funext name
  exact CheckpointStore.getCheckpoint_saveCheckpoint _ _ _ _ _

/-- **An iteration of a worker is a step of a reader**: the poll is applied to
the rows it maintains, and its mark moved. -/
theorem feed_of_advances (hnames : NamesDistinct ps) (hsolo : m.Solo ps)
    (hw : w.projection ∈ ps) (hord : Feed.InOrder StoredEvent.sequenceNumber s.eventStore)
    (h : w.Advances ext s s') :
    ∃ hne : (m.feed ps s).pollOf StoredEvent.sequenceNumber w.reader ≠ [],
      m.feed ps s' = ((m.feed ps s).applyBatch m.history w.reader.name
          ((m.feed ps s).pollOf StoredEvent.sequenceNumber w.reader)).setMark w.reader.name
        (((m.feed ps s).pollOf StoredEvent.sequenceNumber w.reader).getLast
          hne).sequenceNumber := by
  obtain ⟨hne, s₁, hok, rfl⟩ := h
  have hpoll : w.readBatch s = (m.feed ps s).pollOf StoredEvent.sequenceNumber w.reader :=
    readBatch_eq_pollOf hord
  refine ⟨hpoll ▸ hne, ?_⟩
  rw [feed_saveCheckpoint hne, feed_applyBatch hnames hsolo hw hok]
  simp only [hpoll]

theorem step_of_advances (hnames : NamesDistinct ps) (hsolo : m.Solo ps)
    (hw : w.projection ∈ ps) (hord : Feed.InOrder StoredEvent.sequenceNumber s.eventStore)
    (h : w.Advances ext s s') :
    Feed.Step StoredEvent.sequenceNumber m.history (m.feed ps s) (m.feed ps s') := by
  obtain ⟨hne, hfeed⟩ := feed_of_advances (m := m) hnames hsolo hw hord h
  rw [hfeed]
  exact .batch w.reader (covers hnames hsolo hw) hne

/-- The growth of the event store is the growth of a log. -/
theorem step_of_grows (h : s.Grows s') :
    Feed.Step StoredEvent.sequenceNumber m.history (m.feed ps s) (m.feed ps s') := by
  obtain ⟨es, hord, hpos, rfl⟩ := h
  exact .grow es hord hpos

theorem exact_of_fresh (h : s.Fresh) :
    (m.feed ps s).Exact StoredEvent.sequenceNumber m.history := by
  have hfeed : m.feed ps s = ⟨s.eventStore, fun _ => 0, m.owner ps, fun _ => m.history.init⟩ := by
    unfold feed
    rw [h.checkpoints_eq, h.stores_eq]
    congr 1
    funext k
    exact m.rows_start k
  rw [hfeed]
  exact Feed.State.exact_of_start h.inOrder h.sequence_pos

/-- **Where nothing is left to read, a row is its ledger's row of the whole
log** if a projection owns it, and the initial one otherwise. -/
theorem rows_of_done (hnames : NamesDistinct ps) (hsolo : m.Solo ps)
    (h : (m.feed ps s).Exact StoredEvent.sequenceNumber m.history)
    (hdone : ∀ p ∈ ps, ∃ n, (PgWorker.mk p n).Done s) (k : κ) :
    m.rows s.stores k
      = if ∃ p ∈ ps, m.owns p k = true then m.history.row s.eventStore k else m.ledger.init := by
  by_cases hown : ∃ p ∈ ps, m.owns p k = true
  · rw [if_pos hown]
    obtain ⟨p, hp, hpk⟩ := hown
    obtain ⟨n, hn⟩ := hdone p hp
    have howner : (m.feed ps s).owner k = some p.checkpointName :=
      (owner_eq_some_iff hnames hsolo hp).mpr hpk
    refine h.row_of_read howner fun e he hc => ?_
    exact hn e he (covers (w := ⟨p, n⟩) hnames hsolo hp k howner e he hc)
  · rw [if_neg hown]
    have hnone : m.owner ps k = none := owner_eq_none fun p hp => by
      simpa using fun hpk => hown ⟨p, hp, hpk⟩
    have hrow := h.rows_eq k
    rw [Feed.State.processed, show (m.feed ps s).owner k = none from hnone] at hrow
    exact hrow

end ReadModel
