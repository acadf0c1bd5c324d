import IntuitionCore.Surreal.GraphRuns

/-!
# Edges and their ends

An edge is drawn between an account and a vault, and SurrealDB does not ask whether they are
there. The operations of one event see to that, as they are applied together: a vault that is
deposited in is added to, and the sender of an event is made.

The receiver of a deposit is not. A deposit for somebody else draws an edge from an account
that may not be there, and it stays like that until the account makes something itself, or
sends something, or pays a fee.
-/

section Integrity

variable {fmt : SurrealFormats} {payload : StoredEvent → JsonObject} {p : GraphWriter}
  {e : StoredEvent} {ops : List SinkOperation} {op : SinkOperation} {db db' : SurrealDb}
  {id r : RecordId}

/-! ## Records -/

/-- The node that an operation gives a field. -/
def SinkOperation.node? : SinkOperation → Option RecordId
  | upsertNode id _ | reconcileTripleDraft id _ _ _ _ | incrementFields id _ => some id
  | upsertEdge .. => none

/-- The names that a projection sets of a node are not none. -/
theorem GraphWriter.names_ne_nil {table : String} {names : List String}
    (h : (table, names) ∈ p.nodeFields) : names ≠ [] := by
  have hall : ∀ p : GraphWriter, ∀ f ∈ p.nodeFields, f.2 ≠ [] := by
    intro p
    cases p <;> decide
  exact hall p _ h

/-- Adding to a field makes its node. -/
theorem SurrealSink.mem_records_incrementField {increment : String × SinkValue}
    (h : SurrealSink.incrementField fmt id db increment = some db') :
    r ∈ db'.records ↔ r = id ∨ r ∈ db.records := by
  simp only [SurrealSink.incrementField, Option.bind_eq_bind, Option.bind_eq_some_iff,
    Option.pure_def, Option.some.injEq] at h
  obtain ⟨x, -, sum, -, rfl⟩ := h
  have hne : [(increment.1, sum)] ≠ [] := List.cons_ne_nil _ _
  exact SurrealSink.mem_records_mergeFields hne

theorem SurrealSink.mem_records_incrementFields {increments : List (String × SinkValue)}
    (h : increments.foldlM (SurrealSink.incrementField fmt id) db = some db') :
    r ∈ db'.records ↔ increments ≠ [] ∧ r = id ∨ r ∈ db.records := by
  induction increments generalizing db with
  | nil =>
    cases h
    simp
  | cons increment increments ih =>
    obtain ⟨db₁, hdb₁, hrest⟩ := Option.bind_eq_some_iff.mp h
    rw [ih hrest, mem_records_incrementField hdb₁, ← or_assoc]
    refine or_congr_left ?_
    simp only [ne_eq, List.cons_ne_nil, not_false_eq_true, true_and]
    exact or_iff_right_of_imp And.right

/-- **An operation makes its node**, and no other record. -/
theorem SurrealSink.mem_records_applyOp (hdrafts : db.NoDrafts) (hop : p.Issues op)
    (h : SurrealSink.applyOp fmt db op = some db') :
    r ∈ db'.records ↔ op.node? = some r ∨ r ∈ db.records := by
  have hset : ∀ {id : RecordId} {fields : List (String × SinkValue)}
      {values : List (String × SurrealValue)},
      (id.table, fields.map Prod.fst) ∈ p.nodeFields →
      SurrealSink.nodeValues fmt id.table fields = some values →
      (r ∈ (SurrealSink.mergeFields db id values).records ↔ some id = some r ∨ r ∈ db.records)
      := by
    intro id fields values hmem hvalues
    have hne : values ≠ [] := by
      rintro rfl
      exact GraphWriter.names_ne_nil hmem (SurrealSink.map_fst_nodeValues fmt hvalues).symm
    rw [SurrealSink.mem_records_mergeFields hne, Option.some_inj, eq_comm]
  cases op with
  | upsertNode id fields =>
    obtain ⟨values, hvalues, hdb⟩ := Option.bind_eq_some_iff.mp h
    cases hdb
    exact hset hop hvalues
  | reconcileTripleDraft id subject predicate object fields =>
    obtain ⟨values, hvalues, hdb⟩ := Option.bind_eq_some_iff.mp h
    cases hdb
    rw [hdrafts.reconcileTripleDraft]
    exact hset hop hvalues
  | upsertEdge source edgeTable target idSuffix fields =>
    obtain ⟨values, -, hdb⟩ := Option.bind_eq_some_iff.mp h
    cases hdb
    exact (or_iff_right nofun).symm
  | incrementFields id increments =>
    have hrecords := mem_records_incrementFields (r := r) h
    rw [hrecords, and_iff_right hop.1]
    show _ ↔ some id = some r ∨ _
    rw [Option.some_inj, eq_comm]

/-- A batch makes the nodes of its operations. -/
theorem SurrealSink.mem_records_applyBatch (hdrafts : db.NoDrafts)
    (hops : ∀ op ∈ ops, p.Issues op) (h : SurrealSink.applyBatch fmt db ops = some db') :
    r ∈ db'.records ↔ (∃ op ∈ ops, op.node? = some r) ∨ r ∈ db.records := by
  unfold SurrealSink.applyBatch at h
  induction ops generalizing db with
  | nil =>
    cases h
    simp
  | cons op ops ih =>
    obtain ⟨hop, hops⟩ := List.forall_mem_cons.mp hops
    obtain ⟨db₁, hdb₁, hrest⟩ := Option.bind_eq_some_iff.mp h
    rw [ih (get_applyOp hdrafts hop hdb₁).1 hops hrest, mem_records_applyOp hdrafts hop hdb₁,
      List.exists_mem_cons_iff, ← or_assoc, or_comm (a := ∃ _, _)]

/-! ## What an event makes -/

variable (fmt payload) in
/-- A projection makes a record, of an event. -/
def GraphWriter.Makes (p : GraphWriter) (e : StoredEvent) (r : RecordId) : Prop :=
  ∃ op ∈ p.operations fmt payload e, op.node? = some r

variable (fmt payload) in
instance (p : GraphWriter) (e : StoredEvent) (r : RecordId) :
    Decidable (p.Makes fmt payload e r) :=
  inferInstanceAs (Decidable (∃ op ∈ _, _))

/-- What a batch makes is what its events make. -/
theorem GraphWriters.makes_projectBatch {batch : List StoredEvent} :
    (∃ op ∈ projectBatch fmt payload p batch, op.node? = some r)
      ↔ ∃ e ∈ batch, p.Makes fmt payload e r := by
  constructor
  · rintro ⟨op, hop, hnode⟩
    obtain ⟨e, he, hop⟩ := List.mem_flatMap.mp hop
    exact ⟨e, he, op, hop, hnode⟩
  · rintro ⟨e, he, op, hop, hnode⟩
    exact ⟨op, List.mem_flatMap.mpr ⟨e, he, hop⟩, hnode⟩

/-- **Where an event draws an edge**, it makes the vault that the edge leads to, and the
position; and if it is a redemption, the account. -/
theorem GraphWriter.makes_of_upsertEdge {source target : RecordId} {edgeTable : String}
    {idSuffix : Option String} {fields : List (String × SinkValue)}
    (h : .upsertEdge source edgeTable target idSuffix fields ∈ p.operations fmt payload e) :
    source.table = "account" ∧ target.table = "vault" ∧ p.Makes fmt payload e target
      ∧ p.Makes fmt payload e ⟨"position", s!"{source.id}_{target.id}"⟩
      ∧ (edgeTable = "deposit" ∨ edgeTable = "withdraw" ∧ p.Makes fmt payload e source) := by
  unfold Makes
  obtain hnil | hbuilds := @builds_operations fmt payload p e
  · rw [hnil] at h
    cases h
  · cases p with
    | atom =>
      obtain ⟨creator, termId, hex, display, ts, hops⟩ := hbuilds
      rw [hops] at h
      simp [AtomProjection.buildRawAtomOps] at h
    | triple =>
      obtain ⟨creator, termId, subjectId, predicateId, objectId, ts, hops⟩ := hbuilds
      rw [hops] at h
      simp [TripleProjection.buildRawTripleOps] at h
    | deposit =>
      obtain ⟨sender, receiver, termId, curveId, assets, shares, block, ts, tx, log, hops⟩ :=
        hbuilds
      rw [hops] at h ⊢
      simp only [DepositProjection.buildDepositOpsInner, List.mem_cons, List.not_mem_nil,
        reduceCtorEq, or_false, false_or, SinkOperation.upsertEdge.injEq] at h
      obtain ⟨rfl, rfl, rfl, -, -⟩ := h
      simp [DepositProjection.buildDepositOpsInner, SinkOperation.node?]
    | redeem =>
      obtain ⟨sender, termId, curveId, assets, negAssets, negShares, block, ts, tx, log, hops⟩ :=
        hbuilds
      rw [hops] at h ⊢
      simp only [RedeemProjection.buildRedeemOpsInner, List.mem_cons, List.not_mem_nil,
        reduceCtorEq, or_false, false_or, SinkOperation.upsertEdge.injEq] at h
      obtain ⟨rfl, rfl, rfl, -, -⟩ := h
      simp [RedeemProjection.buildRedeemOpsInner, SinkOperation.node?]
    | price =>
      obtain ⟨termId, sharePrice, hops⟩ := hbuilds
      rw [hops] at h
      simp [PriceProjection.buildVaultPriceOp] at h
    | fee =>
      obtain ⟨sender, hops⟩ := hbuilds
      rw [hops] at h
      simp [FeeProjection.buildAccountOp] at h

/-! ## Edges in a run -/

/-- An edge leads from an account to a vault, and but for the account of a deposit all there
should be of it is there. -/
structure SurrealDb.HasEnds (db : SurrealDb) (edge : EdgeId) (row : EdgeRow) : Prop where
  source_eq : row.source = ⟨"account", edge.sourceId⟩
  target_eq : row.target = ⟨"vault", edge.targetId⟩
  target_mem : row.target ∈ db.records
  position_mem : ⟨"position", s!"{edge.sourceId}_{edge.targetId}"⟩ ∈ db.records
  source_mem : edge.edgeTable = "deposit" ∨ edge.edgeTable = "withdraw" ∧ row.source ∈ db.records

/-- All edges of a graph are like that. -/
def SurrealDb.EdgesHaveEnds (db : SurrealDb) : Prop :=
  ∀ edge row, db.edges.lookup edge = some row → db.HasEnds edge row

/-- More records do no harm. -/
theorem SurrealDb.HasEnds.mono {edge : EdgeId} {row : EdgeRow} (h : db.HasEnds edge row)
    (hsub : db.records ⊆ db'.records) : db'.HasEnds edge row :=
  ⟨h.source_eq, h.target_eq, hsub h.target_mem, hsub h.position_mem,
    h.source_mem.imp_right (And.imp_right fun hmem => hsub hmem)⟩

/-- **A batch keeps the ends of the edges**: those it draws have theirs, and the others lose
none. -/
theorem GraphWriters.edgesHaveEnds_projectBatch {batch : List StoredEvent}
    (hdrafts : db.NoDrafts) (hdb : db.EdgesHaveEnds)
    (h : SurrealSink.applyBatch fmt db (projectBatch fmt payload p batch) = some db') :
    db'.EdgesHaveEnds := by
  have hissues : ∀ op ∈ projectBatch fmt payload p batch, p.Issues op := issues_projectBatch
  have hrecords : ∀ r, r ∈ db'.records
      ↔ (∃ e ∈ batch, p.Makes fmt payload e r) ∨ r ∈ db.records := fun r =>
    (SurrealSink.mem_records_applyBatch hdrafts hissues h).trans
      (or_congr_left makes_projectBatch)
  have hmakes : ∀ e ∈ batch, ∀ r, p.Makes fmt payload e r → r ∈ db'.records :=
    fun e he r hr => (hrecords r).mpr (.inl ⟨e, he, hr⟩)
  intro edge row hrow
  have hget := (SurrealSink.get_applyBatch hdrafts hissues h).2 (.edge edge) nofun
  have hrow' : db'.get (.edge edge) = some (.inr row) := by
    show Option.map _ (db'.edges.lookup edge) = _
    rw [hrow]
    rfl
  rw [hrow'] at hget
  obtain hlast | ⟨-, hold⟩ := Option.or_eq_some_iff.mp hget.symm
  · obtain ⟨op, hop, hwritten⟩ := Feed.exists_of_lastWrite hlast
    obtain ⟨e, he, hop⟩ := List.mem_flatMap.mp hop
    cases op with
    | upsertEdge source edgeTable target idSuffix fields =>
      obtain ⟨hedge, hvalues⟩ := Option.ite_none_right_eq_some.mp hwritten
      obtain ⟨values, -, heq⟩ := Option.map_eq_some_iff.mp hvalues
      cases heq
      cases hedge
      obtain ⟨hsource, htarget, hvault, hposition, htable⟩ :=
        GraphWriter.makes_of_upsertEdge hop
      obtain ⟨table, id⟩ := source
      obtain ⟨table', id'⟩ := target
      cases hsource
      cases htarget
      exact ⟨rfl, rfl, hmakes e he _ hvault, hmakes e he _ hposition,
        htable.imp_right (And.imp_right (hmakes e he _))⟩
    | upsertNode id fields => cases hwritten
    | reconcileTripleDraft id subject predicate object fields => cases hwritten
    | incrementFields id increments => cases hwritten
  · obtain ⟨row₀, hrow₀, heq⟩ := Option.map_eq_some_iff.mp hold
    cases heq
    exact (hdb edge row hrow₀).mono fun r hr => (hrecords r).mpr (.inr hr)

end Integrity

namespace GraphWriters

section Runs

variable {fmt : SurrealFormats} {payload : StoredEvent → JsonObject} {s s' : GraphWriters}
  {as : List Action} {r : RecordId}

/-- The edges have their ends throughout a run. -/
theorem edgesHaveEnds_follow (h : s.Fresh) (hs : Run.follow (step fmt payload) s as = some s') :
    s'.db.EdgesHaveEnds := by
  refine (Run.invariant_of_follow (I := fun s : GraphWriters => s.db.NoDrafts
    ∧ s.db.EdgesHaveEnds) (fun s a s' hinv hstep => ?_) hs ?_).2
  · obtain ⟨hdrafts, hends⟩ := hinv
    cases a with
    | grow es =>
      obtain ⟨-, heq⟩ := Option.ite_none_right_eq_some.mp hstep
      cases heq
      exact ⟨hdrafts, hends⟩
    | work p batchSize saved =>
      obtain ⟨-, hstep⟩ := Option.ite_none_left_eq_some.mp hstep
      obtain ⟨db, hdb, rfl⟩ := Option.map_eq_some_iff.mp hstep
      have hnew : db.NoDrafts ∧ db.EdgesHaveEnds :=
        ⟨noDrafts_applyBatch hdrafts hdb, edgesHaveEnds_projectBatch hdrafts hends hdb⟩
      cases saved with
      | false => exact hnew
      | true =>
        show (saveCheckpoint _ _ _).db.NoDrafts ∧ (saveCheckpoint _ _ _).db.EdgesHaveEnds
        unfold saveCheckpoint
        split <;> exact hnew
  · rw [h.db_eq]
    refine ⟨fun id => rfl, fun edge row hrow => ?_⟩
    cases hrow

/-- **A record is there once one of the workers has come to an event that makes it.** -/
theorem mem_records_of_done (h : s.Fresh) (hs : Run.follow (step fmt payload) s as = some s')
    (hdone : ∀ p, s'.Done p) :
    r ∈ s'.db.records ↔ ∃ p, ∃ e ∈ s'.wanted p, p.Makes fmt payload e r := by
  have hshows : ∃ reached, s'.view.Shows StoredEvent.sequenceNumber
      (fun p => EventReader.wants p.eventTypeStrs)
      (fun p e => if p.Makes fmt payload e r then some () else none)
      (if r ∈ s'.db.records then some () else none) reached := by
    refine (view_fresh h).shows_follow (I := SurrealDb.NoDrafts)
      (g := fun db : SurrealDb => if r ∈ db.records then some () else none) ?_ ?_
      (fun p db batch db' hdrafts hbatch => ?_) (follow_view h hs)
    · rw [show s.view.store = {} from h.db_eq]
      exact fun _ => rfl
    · rw [show s.view.store = {} from h.db_eq]
      rfl
    · refine ⟨noDrafts_applyBatch hdrafts hbatch, ?_⟩
      show (if r ∈ db'.records then some () else none)
        = (Feed.lastWrite _ batch).or (if r ∈ db.records then some () else none)
      rw [Feed.lastWrite_mark]
      have hrecords : r ∈ db'.records
          ↔ (∃ e ∈ batch, p.Makes fmt payload e r) ∨ r ∈ db.records :=
        (SurrealSink.mem_records_applyBatch hdrafts issues_projectBatch hbatch).trans
          (or_congr_left makes_projectBatch)
      by_cases hmakes : ∃ e ∈ batch, p.Makes fmt payload e r
      · rw [if_pos hmakes, if_pos (hrecords.mpr (.inl hmakes))]
        rfl
      · rw [if_neg hmakes, Option.none_or]
        exact if_congr (hrecords.trans (or_iff_right hmakes)) rfl rfl
  obtain ⟨reached, hshows⟩ := hshows
  obtain ⟨hnone, hsome⟩ := hshows.done fun p => passed_eq_wanted (hdone p)
  constructor
  · intro hr
    obtain ⟨p, hp⟩ := hsome () (if_pos hr)
    obtain ⟨e, he, hmakes⟩ := Feed.exists_of_lastWrite hp
    exact ⟨p, e, he, (Option.ite_none_right_eq_some.mp hmakes).1⟩
  · rintro ⟨p, e, he, hmakes⟩
    by_contra hr
    have hlast := Feed.lastWrite_eq_none_iff.mp (hnone.mp (if_neg hr) p) e he
    exact absurd hlast (by simp [hmakes])

/-- **The edges of the graph and their ends.** In every state, an edge leads from an account to
a vault that is there, as the position of both is, and the account of a redemption is there.
Once all workers are done, the account of a deposit is missing exactly if no event of the log
makes it. -/
theorem edges_follow (h : s.Fresh) (hs : Run.follow (step fmt payload) s as = some s')
    {edge : EdgeId} {row : EdgeRow} (hrow : s'.db.edges.lookup edge = some row) :
    s'.db.HasEnds edge row
      ∧ ((∀ p, s'.Done p) → (row.source ∉ s'.db.records
        ↔ ∀ p, ∀ e ∈ s'.wanted p, ¬ p.Makes fmt payload e row.source)) := by
  refine ⟨edgesHaveEnds_follow h hs edge row hrow, fun hdone => ?_⟩
  rw [mem_records_of_done h hs hdone]
  push Not
  rfl

end Runs

/-- Whoever deposits for himself is there: the edge of the first deposit has its ends. -/
theorem edges_follow_applied : ∃ s',
    Run.follow (step .exact fun _ => ∅) firstGraph applied = some s' ∧ ∃ row,
      s'.db.edges.lookup ⟨"deposit", "0xa", "0x07", some "0xtx-0"⟩ = some row
        ∧ s'.db.HasEnds ⟨"deposit", "0xa", "0x07", some "0xtx-0"⟩ row := by
  have hedge : ((Run.follow (step .exact fun _ => ∅) firstGraph applied).bind fun s' =>
      s'.db.edges.lookup ⟨"deposit", "0xa", "0x07", some "0xtx-0"⟩).isSome = true := by
    decide +kernel
  obtain ⟨row, hedge⟩ := Option.isSome_iff_exists.mp hedge
  obtain ⟨s', hs', hrow⟩ := Option.bind_eq_some_iff.mp hedge
  exact ⟨s', hs', row, hrow, (edges_follow firstGraph_fresh hs' hrow).1⟩

end GraphWriters
