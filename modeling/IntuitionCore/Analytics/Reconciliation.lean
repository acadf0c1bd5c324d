import IntuitionCore.Analytics.Service

/-!
# Whether facts, signals and statistics agree

The facts of a log tell what its signals and its totals should be. What the tables of the
three projections have is known in every state that a schedule leads to: the facts are of a
beginning of the log, each event taken once; the signals and the totals are of what the
worker has passed, and once more of what it processed without saving its checkpoint.
-/

open EventLogProjection SignalsAnalyticsProjection ProtocolStatsProjection

namespace AnalyticsService

variable {ext : Externals} {s s' : AnalyticsService} {as : List AnalyticsAction}

/-- The facts, the signals and the statistics. -/
def facts (s : AnalyticsService) : FactDb := s.db .eventLog

def signal (s : AnalyticsService) : List SignalRow := s.db .signalsAnalytics

def statsDb (s : AnalyticsService) : StatsDb := s.db .protocolStats

/-- The events of the log that a worker wants. -/
def wanted (s : AnalyticsService) (p : AnalyticsProjection) : List StoredEvent :=
  s.eventStore.filter (EventReader.wants p.eventTypeStrs)

/-- The events that a worker's checkpoint has passed. -/
def passed (s : AnalyticsService) (p : AnalyticsProjection) : List StoredEvent :=
  (s.wanted p).filter fun e => e.sequenceNumber ≤ s.checkpoint p

theorem passed_eq (s : AnalyticsService) (p : AnalyticsProjection) :
    s.passed p = (s.view p).passed StoredEvent.sequenceNumber
      (EventReader.wants p.eventTypeStrs) :=
  Feed.upTo_filter _

/-- A worker that is done has passed all it wants. -/
theorem passed_of_done {p : AnalyticsProjection} (h : s.Done p) : s.passed p = s.wanted p := by
  rw [passed_eq]
  exact Feed.Consumer.passed_eq_filter h

/-! ## One deposit -/

section OneDeposit

/-- An event store of the first deposit. -/
def oneDeposit : AnalyticsService where
  eventStore := [firstDeposit]

/-- Each worker processes it. -/
def processOneDeposit : List AnalyticsAction :=
  [.work .eventLog 1 true, .work .signalsAnalytics 1 true, .work .protocolStats 1 true]

theorem oneDeposit_fresh : oneDeposit.Fresh where
  inOrder := List.pairwise_singleton _ _
  sequence_pos := by simp [oneDeposit, firstDeposit]
  db_eq := rfl
  checkpoints_eq := rfl

/-- Every worker wants a deposit. -/
theorem wants_firstDeposit (p : AnalyticsProjection) :
    EventReader.wants p.eventTypeStrs firstDeposit = true := by
  cases p <;> decide

/-- A worker that has not processed the deposit can process it. -/
theorem exists_step_oneDeposit (ext : Externals) {s : AnalyticsService}
    (hstore : s.eventStore = [firstDeposit]) (p : AnalyticsProjection)
    (hckpt : s.checkpoint p = 0) :
    ∃ s', s.step ext (.work p 1 true) = some s' ∧ s'.eventStore = [firstDeposit]
      ∧ ∀ q, s'.checkpoint q = if q = p then 1 else s.checkpoint q := by
  have hread : s.readBatch p 1 = [firstDeposit] := by
    have hwants := wants_firstDeposit p
    unfold EventReader.wants at hwants
    unfold readBatch EventReader.readBatchMulti
    rw [hstore, hckpt, List.filter_singleton]
    have hmem := (Bool.and_eq_true_iff.mp hwants).1
    rw [hmem]
    exact congrArg (List.take 1) (List.mergeSort_singleton firstDeposit)
  have hstep : s.step ext (.work p 1 true)
      = some ((s.applyBatch ext p [firstDeposit]).saveCheckpoint p [firstDeposit]) := by
    show (if (s.readBatch p 1).isEmpty = true then none else _) = _
    rw [hread]
    rfl
  obtain ⟨hne, hstore', -, hckpt'⟩ := step_work hstep
  refine ⟨_, hstep, hstore'.trans hstore, fun q => ?_⟩
  rw [hckpt' q]
  simp [hread, firstDeposit]

/-- All have processed it in the end. -/
theorem follow_processOneDeposit (ext : Externals) :
    ∃ s', Run.follow (step ext) oneDeposit processOneDeposit = some s'
      ∧ s'.eventStore = [firstDeposit] ∧ ∀ p, s'.checkpoint p = 1 := by
  obtain ⟨s₁, hs₁, hstore₁, hckpt₁⟩ :=
    exists_step_oneDeposit ext (s := oneDeposit) rfl .eventLog rfl
  obtain ⟨s₂, hs₂, hstore₂, hckpt₂⟩ :=
    exists_step_oneDeposit ext hstore₁ .signalsAnalytics (hckpt₁ _)
  have hzero : s₂.checkpoint .protocolStats = 0 := by
    rw [hckpt₂, if_neg (by decide), hckpt₁, if_neg (by decide)]
    rfl
  obtain ⟨s₃, hs₃, hstore₃, hckpt₃⟩ := exists_step_oneDeposit ext hstore₂ .protocolStats hzero
  refine ⟨s₃, ?_, hstore₃, fun p => ?_⟩
  · simp [Run.follow, processOneDeposit, hs₁, hs₂, hs₃]
  · rw [hckpt₃, hckpt₂, hckpt₁]
    cases p <;> rfl

theorem done_of_checkpoint {s : AnalyticsService} (hstore : s.eventStore = [firstDeposit])
    (hckpt : ∀ p, s.checkpoint p = 1) (p : AnalyticsProjection) : s.Done p := by
  intro e he _
  rw [hstore, List.mem_singleton] at he
  rw [he, hckpt]
  decide

end OneDeposit

/-! ## Facts -/

/-- **The facts are those of a beginning of the log**, each event taken once: a beginning that
has everything the checkpoint has passed. Every fact has its canonical row. Where the
checkpoint has passed everything, the facts are those of the log. -/
theorem facts_of_beginning (h : s.Fresh) (hs : Run.follow (step ext) s as = some s') :
    (∃ es, s'.passed .eventLog <+: es ∧ es <+: s'.wanted .eventLog
      ∧ s'.facts = EventLogProjection.processParsedBatch ext {} (parseBatchOnce es))
    ∧ Referenced s'.facts
    ∧ (s'.Done .eventLog → s'.facts
      = EventLogProjection.processParsedBatch ext {} (parseBatchOnce (s'.wanted .eventLog))) := by
  have hins : Settles fun (db : FactDb) (e : StoredEvent) =>
      processEvent ext db (ParsedEvent.parseOrUnknown e) :=
    ⟨fun db e => (settles_processEvent ext).again db _,
      fun db e f => (settles_processEvent ext).stays db _ _⟩
  have hprocess : ∀ (db : FactDb) (es : List StoredEvent),
      EventLogProjection.processParsedBatch ext db (parseBatchOnce es)
        = es.foldl (fun db e => processEvent ext db (ParsedEvent.parseOrUnknown e)) db :=
    fun db es => List.foldl_map
  have hempty : (s.view .eventLog).store = ({} : FactDb) := by
    show s.db .eventLog = _
    rw [h.db_eq]
    rfl
  have hfilled := (view_fresh h .eventLog).filled_follow hins hprocess (follow_view h hs .eventLog)
  rw [hempty] at hfilled
  have hdone : s'.Done .eventLog → s'.facts
      = EventLogProjection.processParsedBatch ext {} (parseBatchOnce (s'.wanted .eventLog)) :=
    fun hd => (hfilled.eq_of_read hd).trans (hprocess _ _).symm
  obtain ⟨es, hup, hlog, hes⟩ := hfilled
  have hfacts : s'.facts = EventLogProjection.processParsedBatch ext {} (parseBatchOnce es) :=
    hes.trans (hprocess _ _).symm
  refine ⟨⟨es, ?_, hlog, hfacts⟩, ?_, hdone⟩
  · rw [passed_eq]
    exact hup
  · rw [hfacts]
    exact referenced_foldl ext _

theorem facts_of_beginning_oneDeposit : ∃ s' : AnalyticsService, s'.eventStore = [firstDeposit]
    ∧ Referenced s'.facts ∧ s'.facts = EventLogProjection.processParsedBatch .exact {}
      (parseBatchOnce (s'.wanted .eventLog)) := by
  obtain ⟨s', hs', hstore, hckpt⟩ := follow_processOneDeposit .exact
  obtain ⟨-, href, hfacts⟩ := facts_of_beginning oneDeposit_fresh hs'
  exact ⟨s', hstore, href, hfacts (done_of_checkpoint hstore hckpt _)⟩

/-! ## Signals and totals -/

/-- What events add up to, as they are parsed. -/
def parsedSum {M : Type} [AddMonoid M] (f : ParsedEvent → M) (es : List StoredEvent) : M :=
  ((parseBatchOnce es).map f).sum

/-- **A measure of tables to which each event adds its part** has the parts of what was
passed, and once more of what was processed again. -/
theorem measure_follow {M : Type} [AddCommMonoid M] (h : s.Fresh)
    (hs : Run.follow (step ext) s as = some s') (p : AnalyticsProjection) {μ : p.Tables → M}
    {f : ParsedEvent → M} (hμ : ∀ db es, μ (p.process ext db es) = μ db + parsedSum f es) :
    μ (s'.db p) = μ p.empty + parsedSum f (s'.passed p) + parsedSum f (s.again ext p as) := by
  have hsum : ∀ es, parsedSum f es = (es.map fun e => f (ParsedEvent.parseOrUnknown e)).sum :=
    fun es => congrArg List.sum (List.map_map)
  have hrun := (view_fresh h p).measure_follow (μ := μ)
    (fun db es => (hμ db es).trans (congrArg _ (hsum es))) (follow_view h hs p)
  rw [passed_eq, hsum, hsum, ← h.db_eq]
  exact hrun

/-- **The signals are of what was passed, and once more of what was processed again.** -/
theorem signals_follow (h : s.Fresh) (hs : Run.follow (step ext) s as = some s') :
    (s'.signal : Multiset SignalRow)
      = parsedSum (signalsOf ext) (s'.passed .signalsAnalytics)
        + parsedSum (signalsOf ext) (s.again ext .signalsAnalytics as) := by
  have hrun := measure_follow h hs .signalsAnalytics
    (μ := fun signal => Multiset.ofList (α := SignalRow) signal) (f := signalsOf ext)
    fun signal es => coe_processParsedBatch ext signal (parseBatchOnce es)
  refine hrun.trans (congrArg (· + _) ?_)
  exact zero_add _

/-- **The totals are of what was passed, and once more of what was processed again.** -/
theorem totals_follow (h : s.Fresh) (hs : Run.follow (step ext) s as = some s') :
    rowTotals s'.statsDb.stats
      = parsedSum contribution (s'.passed .protocolStats)
        + parsedSum contribution (s.again ext .protocolStats as) := by
  have hrun := measure_follow h hs .protocolStats
    (μ := fun db => rowTotals (StatsDb.stats db)) (f := contribution)
    fun db es => rowTotals_processParsedBatch db (parseBatchOnce es)
  refine hrun.trans (congrArg (· + _) ?_)
  exact zero_add _

end AnalyticsService

/-! ## What facts tell -/

/-- How many deposits, of what volume; how many redemptions, of what volume; and the
fees. -/
abbrev FactTotals := (ℕ × ℚ) × (ℕ × ℚ) × ℚ

/-- The totals of deposits, redemptions and fees among the totals. -/
def ProtocolStatsProjection.financial (t : Totals) : FactTotals :=
  ((t.1.2.2.1, t.2.1), (t.1.2.2.2, t.2.2.1), t.2.2.2)

theorem ProtocolStatsProjection.financial_add (t u : Totals) :
    financial (t + u) = financial t + financial u := rfl

theorem ProtocolStatsProjection.financial_sum (ts : List Totals) :
    financial ts.sum = (ts.map financial).sum := by
  induction ts with
  | nil => rfl
  | cons t ts ih => rw [List.sum_cons, financial_add, ih, List.map_cons, List.sum_cons]

namespace FactDb

/-- The totals that the facts tell. -/
def totals (db : FactDb) : FactTotals :=
  ((db.depositFact.rows.card, (db.depositFact.rows.map fun row => row.2.assetsAfterFees).sum),
    (db.redemptionFact.rows.card, (db.redemptionFact.rows.map fun row => row.2.assets).sum),
    (db.feeTransferFact.rows.map fun row => row.2.amount).sum)

/-- The signal of the fact of a deposit. -/
def depositSignal (row : String × DepositFactRow) : SignalRow where
  eventId := row.1
  accountId := row.2.receiverId
  termId := row.2.termId
  curveId := row.2.curveId
  signalType := .deposit
  delta := row.2.assetsAfterFees
  blockNumber := row.2.blockNumber
  ts := row.2.ts

/-- The signal of the fact of a redemption. -/
def redemptionSignal (row : String × RedemptionFactRow) : SignalRow where
  eventId := row.1
  accountId := row.2.senderId
  termId := row.2.termId
  curveId := row.2.curveId
  signalType := .redemption
  delta := row.2.assets
  blockNumber := row.2.blockNumber
  ts := row.2.ts

/-- The signals that the facts tell. -/
def signals (db : FactDb) : Multiset SignalRow :=
  db.depositFact.rows.map depositSignal + db.redemptionFact.rows.map redemptionSignal

variable {ext : Externals} {events : List ParsedEvent}

/-- Entries under the ids of different events are of different keys. -/
theorem nodup_entries {ρ : Type} {entry : ParsedEvent → Option (String × ρ)}
    (hentry : ∀ e k r, entry e = some (k, r) → k = e.metadata.eventId)
    (h : events.Pairwise fun e f => e.metadata.eventId ≠ f.metadata.eventId) :
    ((events.filterMap entry).map Prod.fst).Nodup := by
  refine List.pairwise_map.mpr (List.pairwise_filterMap.mpr (h.imp ?_))
  rintro e f hne ⟨k, r⟩ hkr ⟨k', r'⟩ hkr' hk
  rw [hentry e k r hkr, hentry f k' r' hkr'] at hk
  exact hne hk

/-- The rows of a table of facts are those of the events. -/
theorem rows_foldl {ρ : Type} {entry : ParsedEvent → Option (String × ρ)}
    (hentry : ∀ e k r, entry e = some (k, r) → k = e.metadata.eventId)
    (h : events.Pairwise fun e f => e.metadata.eventId ≠ f.metadata.eventId) :
    (events.foldl (fun t e => t.insertEntry (entry e)) (∅ : Table String ρ)).rows
      = events.filterMap entry := by
  rw [Table.rows_foldl_insertEntry entry (nodup_entries hentry h) fun _ _ => Finmap.lookup_empty _]
  exact zero_add _

/-- **The facts of events with different ids tell the signals and the totals of the
events.** -/
theorem tells (h : events.Pairwise fun e f => e.metadata.eventId ≠ f.metadata.eventId) :
    (EventLogProjection.processParsedBatch ext {} events).signals
        = (events.map (signalsOf ext)).sum
      ∧ (EventLogProjection.processParsedBatch ext {} events).totals
        = financial (events.map contribution).sum := by
  have hdeposit : ∀ e k r, depositEntry ext e = some (k, r) → k = e.metadata.eventId := by
    intro e k r hkr
    cases e <;> cases hkr
    rfl
  have hredemption : ∀ e k r, redemptionEntry ext e = some (k, r) → k = e.metadata.eventId := by
    intro e k r hkr
    cases e <;> cases hkr
    rfl
  have hfee : ∀ e k r, feeEntry ext e = some (k, r) → k = e.metadata.eventId := by
    intro e k r hkr
    cases e <;> cases hkr
    rfl
  unfold signals totals
  rw [EventLogProjection.processParsedBatch, foldl_processEvent, rows_foldl hdeposit h,
    rows_foldl hredemption h, rows_foldl hfee h, financial_sum]
  clear h
  induction events with
  | nil => exact ⟨rfl, rfl⟩
  | cons e events ih =>
    obtain ⟨hsignals, htotals⟩ := ih
    rw [List.map_cons, List.map_cons, List.map_cons, List.sum_cons, List.sum_cons, ← hsignals,
      ← htotals, List.filterMap_cons, List.filterMap_cons, List.filterMap_cons]
    constructor
    · cases e with
      | deposited metadata data =>
        simp only [depositEntry, redemptionEntry, ← Multiset.cons_coe, Multiset.map_cons,
          Multiset.cons_add]
        rfl
      | redeemed metadata data =>
        simp only [depositEntry, redemptionEntry, ← Multiset.cons_coe, Multiset.map_cons,
          Multiset.add_cons]
        rfl
      | _ => exact (zero_add _).symm
    · cases e <;>
        simp [depositEntry, redemptionEntry, feeEntry, contribution, accumulateTyped, deltaTotals,
          financial, depositFactRow, redemptionFactRow, feeTransferFactRow, add_comm]

end FactDb

/-! ## Agreement -/

namespace AnalyticsService

variable {ext : Externals} {s s' : AnalyticsService} {as : List AnalyticsAction}

/-- The history leads up to the totals in every state. -/
theorem recorded_follow (h : s.Fresh) (hs : Run.follow (step ext) s as = some s') :
    Recorded s'.statsDb := by
  refine Run.invariant_of_follow (I := fun s => Recorded s.statsDb) (fun s a s' hrec hstep => ?_)
    hs ?_
  · cases a with
    | grow es =>
      obtain ⟨-, -, rfl⟩ := step_grow hstep
      exact hrec
    | work p batchSize saved =>
      obtain ⟨-, -, hdb, -⟩ := step_work hstep
      show Recorded (s'.db .protocolStats)
      rw [hdb]
      by_cases hp : p = .protocolStats
      · subst hp
        rw [Function.update_self]
        exact hrec.processParsedBatch _
      · rw [Function.update_of_ne (Ne.symm hp)]
        exact hrec
  · show Recorded (s.db .protocolStats)
    rw [h.db_eq]
    exact recorded_empty

/-- **Signals and statistics are at least once.** In every state, the signals and the totals
are those of what their worker's checkpoint has passed, and once more of what it processed
without saving its checkpoint; the history of the totals leads up to them. -/
theorem signals_and_totals_follow (h : s.Fresh) (hs : Run.follow (step ext) s as = some s') :
    (s'.signal : Multiset SignalRow)
        = parsedSum (signalsOf ext) (s'.passed .signalsAnalytics)
          + parsedSum (signalsOf ext) (s.again ext .signalsAnalytics as)
      ∧ rowTotals s'.statsDb.stats
        = parsedSum contribution (s'.passed .protocolStats)
          + parsedSum contribution (s.again ext .protocolStats as)
      ∧ Recorded s'.statsDb :=
  ⟨signals_follow h hs, totals_follow h hs, recorded_follow h hs⟩

theorem signals_and_totals_follow_oneDeposit :
    ∃ s' : AnalyticsService, s'.eventStore = [firstDeposit] ∧ Recorded s'.statsDb := by
  obtain ⟨s', hs', hstore, -⟩ := follow_processOneDeposit .exact
  exact ⟨s', hstore, (signals_and_totals_follow oneDeposit_fresh hs').2.2⟩

/-- No two canonical events are of the same log of a transaction. -/
def DistinctLogs (eventStore : List StoredEvent) : Prop :=
  (eventStore.filter fun e => e.isCanonical).Pairwise fun e f =>
    ¬ (e.transactionHash = f.transactionHash ∧ e.logIndex = f.logIndex)

instance (eventStore : List StoredEvent) : Decidable (DistinctLogs eventStore) :=
  inferInstanceAs (Decidable (List.Pairwise _ _))

/-- **The three agree**: the signals, and the totals of deposits, redemptions and fees, are
what the facts tell. -/
structure Reconciled (s : AnalyticsService) : Prop where
  signals : (s.signal : Multiset SignalRow) = s.facts.signals
  totals : financial (rowTotals s.statsDb.stats) = s.facts.totals

/-- No type of event has a dash. -/
theorem dash_notMem_asStr (t : EventType) : '-' ∉ t.asStr.toList := by
  cases t <;> decide

/-- The events that are wanted have different ids. -/
theorem pairwise_eventId (hlogs : DistinctLogs s.eventStore) (p : AnalyticsProjection) :
    (parseBatchOnce (s.wanted p)).Pairwise fun e f => e.metadata.eventId ≠ f.metadata.eventId := by
  have htype : ∀ e ∈ s.wanted p, '-' ∉ e.eventType.toList := by
    intro e he
    obtain ⟨hmem, -⟩ := Bool.and_eq_true_iff.mp (List.mem_filter.mp he).2
    obtain ⟨t, -, ht⟩ := List.mem_map.mp (List.contains_iff_mem.mp hmem)
    rw [← ht]
    exact dash_notMem_asStr t
  have hsub : (s.wanted p).Sublist (s.eventStore.filter fun e => e.isCanonical) :=
    List.monotone_filter_right _ fun e he => (Bool.and_eq_true_iff.mp he).2
  refine List.pairwise_map.mpr ((hlogs.sublist hsub).imp_of_mem fun he hf hne heq => hne ?_)
  rw [ParsedEvent.metadata_parseOrUnknown, ParsedEvent.metadata_parseOrUnknown] at heq
  obtain ⟨htx, hindex, -⟩ := EventMetadata.eventId_inj (htype _ he) (htype _ hf) heq
  exact ⟨htx, hindex⟩

/-- **What a worker wants has all that its measure counts**: what it leaves out of the events
that the facts are made of has no part. -/
theorem parsedSum_wanted {M : Type} [AddMonoid M] {f : ParsedEvent → M} (p : AnalyticsProjection)
    (hf : ∀ e, f e ≠ 0 → ∃ t ∈ p.projection.eventTypes, e.type? = some t) :
    parsedSum f (s.wanted p) = parsedSum f (s.wanted .eventLog) := by
  have hall : ∀ t : EventType, t ∈ AnalyticsProjection.eventLog.projection.eventTypes := by
    intro t
    cases t <;> decide
  have hwanted : s.wanted p
      = (s.wanted .eventLog).filter (EventReader.wants p.eventTypeStrs) := by
    unfold wanted
    rw [List.filter_filter]
    refine List.filter_congr fun e _ => ?_
    cases hp : EventReader.wants p.eventTypeStrs e with
    | false => rfl
    | true =>
      obtain ⟨hmem, hcanonical⟩ := Bool.and_eq_true_iff.mp hp
      obtain ⟨t, -, ht⟩ := List.mem_map.mp (List.contains_iff_mem.mp hmem)
      refine (Bool.and_eq_true_iff.mpr ⟨?_, hcanonical⟩).symm
      exact List.contains_iff_mem.mpr (List.mem_map.mpr ⟨t, hall t, ht⟩)
  unfold parsedSum parseBatchOnce
  rw [List.map_map, List.map_map, hwanted]
  refine Feed.Consumer.sum_map_filter fun e he hnot => ?_
  by_contra hne
  obtain ⟨t, ht, htype⟩ := hf _ hne
  have hcanonical := (Bool.and_eq_true_iff.mp (List.mem_filter.mp he).2).2
  refine Bool.false_ne_true (hnot.symm.trans (Bool.and_eq_true_iff.mpr ⟨?_, hcanonical⟩))
  refine List.contains_iff_mem.mpr (List.mem_map.mpr ⟨t, ht, ?_⟩)
  exact (ParsedEvent.eventType_of_type? htype).symm

/-- **What each of the three tells when everything has been processed**: the signals and the
totals are what the facts tell, and what was processed again besides. -/
theorem tells_of_done (h : s.Fresh) (hs : Run.follow (step ext) s as = some s')
    (hdone : ∀ p, s'.Done p) (hlogs : DistinctLogs s'.eventStore) :
    (s'.signal : Multiset SignalRow)
        = s'.facts.signals + parsedSum (signalsOf ext) (s.again ext .signalsAnalytics as)
      ∧ financial (rowTotals s'.statsDb.stats)
        = s'.facts.totals
          + financial (parsedSum contribution (s.again ext .protocolStats as)) := by
  obtain ⟨-, -, hfacts⟩ := facts_of_beginning h hs
  obtain ⟨hsignals, htotals⟩ := @FactDb.tells ext _ (pairwise_eventId hlogs .eventLog)
  rw [← hfacts (hdone _)] at hsignals htotals
  constructor
  · rw [signals_follow h hs, passed_of_done (hdone _), hsignals]
    refine congrArg (· + _) (parsedSum_wanted _ fun e he => ?_)
    cases e <;> first | exact ⟨_, by decide, rfl⟩ | exact absurd rfl he
  · rw [totals_follow h hs, passed_of_done (hdone _), financial_add, htotals]
    refine congrArg (fun t => financial t + _) (parsedSum_wanted _ fun e he => ?_)
    cases e <;> first | exact ⟨_, by decide, rfl⟩ | exact absurd rfl he

/-- **Facts, signals and statistics agree, once everything has been processed, exactly if
nothing with a signal was processed again for the signals, and what was processed again for
the statistics adds up to no deposit, no redemption and no fees.** -/
theorem reconciled_iff (h : s.Fresh) (hs : Run.follow (step ext) s as = some s')
    (hdone : ∀ p, s'.Done p) (hlogs : DistinctLogs s'.eventStore) :
    s'.Reconciled ↔
      (∀ e ∈ s.again ext .signalsAnalytics as, signalOf ext (ParsedEvent.parseOrUnknown e) = none)
        ∧ financial (parsedSum contribution (s.again ext .protocolStats as)) = 0 := by
  obtain ⟨hsignals, htotals⟩ := tells_of_done h hs hdone hlogs
  have hnone : parsedSum (signalsOf ext) (s.again ext .signalsAnalytics as) = 0 ↔
      ∀ e ∈ s.again ext .signalsAnalytics as,
        signalOf ext (ParsedEvent.parseOrUnknown e) = none := by
    unfold parsedSum parseBatchOnce
    induction s.again ext .signalsAnalytics as with
    | nil => simp
    | cons e es ih =>
      rw [List.map_cons, List.map_cons, List.sum_cons,
        add_eq_zero_iff_of_nonneg (Multiset.zero_le _) (Multiset.zero_le _), ih,
        List.forall_mem_cons]
      refine and_congr_left fun _ => ?_
      unfold signalsOf
      cases signalOf ext (ParsedEvent.parseOrUnknown e) <;> simp
  rw [← hnone]
  constructor
  · rintro ⟨hsignal, htotal⟩
    rw [hsignal] at hsignals
    rw [htotal] at htotals
    exact ⟨left_eq_add.mp hsignals, left_eq_add.mp htotals⟩
  · rintro ⟨hsignal, htotal⟩
    exact ⟨by rw [hsignals, hsignal, add_zero], by rw [htotals, htotal, add_zero]⟩

theorem reconciled_iff_oneDeposit : ∃ s' : AnalyticsService, s'.eventStore = [firstDeposit]
    ∧ (s'.Reconciled ↔
      (∀ e ∈ oneDeposit.again .exact .signalsAnalytics processOneDeposit,
        signalOf .exact (ParsedEvent.parseOrUnknown e) = none)
      ∧ financial (parsedSum contribution
          (oneDeposit.again .exact .protocolStats processOneDeposit)) = 0) := by
  obtain ⟨s', hs', hstore, hckpt⟩ := follow_processOneDeposit .exact
  have hlogs : DistinctLogs s'.eventStore := hstore ▸ List.pairwise_singleton _ _
  exact ⟨s', hstore, reconciled_iff oneDeposit_fresh hs' (done_of_checkpoint hstore hckpt) hlogs⟩

end AnalyticsService
