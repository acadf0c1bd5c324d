import IntuitionCore.Projections.Replay

/-!
# The two copies of the market state

The dual projections write every vault and every active position twice, with
the same statements, to the KG database and to the legacy one. A batch has a
transaction in each; the KG one is committed first, and nothing ties the other
to it. Where the KG commit is left standing alone, the batch is applied again,
and the KG copy has it twice.

The two copies agree on everything a checkpoint has passed as long as a KG
commit is only ever left alone by a batch that adds nothing. The states of a
schedule are those between two batches.
-/

open Relation Result

/-! ## Schedules -/

/-- The workers of the two dual projections, in a process that has a KG
pool. -/
def ProjectionsConfig.dualWorkers (config : ProjectionsConfig) : List PgWorker :=
  ((List.range config.positionTrackingShards).map fun shardId =>
      ⟨.vaultStateDual shardId config.positionTrackingShards true, config.batchSize⟩)
    ++ [⟨.vaultHoldersIndexDual true, config.batchSize⟩]

/-- An iteration of the loop in which a batch is committed in the KG database,
and the legacy commit fails or is never reached. -/
def PgWorker.CommitsKgOnly (ext : Externals) (w : PgWorker) (s s' : Service) : Prop :=
  w.readBatch s ≠ [] ∧ ∃ s₁, w.applyBatch ext s (w.readBatch s) = .ok s₁ ∧
    s' = { s with stores := { s.stores with kg := s₁.stores.kg } }

/-- The steps of some workers over a growing event store. Where a KG commit may
be left standing alone is a parameter. A batch that is committed in neither
database is no step. -/
inductive Service.DualStep (ext : Externals) (ws : List PgWorker)
    (mayStandAlone : PgWorker → Service → Prop) : Service → Service → Prop
  /-- Events are appended. -/
  | grows {s s' : Service} (h : s.Grows s') : DualStep ext ws mayStandAlone s s'
  /-- A batch is committed in both databases, and its checkpoint saved. -/
  | advances {w : PgWorker} {s s' : Service} (hw : w ∈ ws) (h : w.Advances ext s s') :
      DualStep ext ws mayStandAlone s s'
  /-- A batch is committed in both databases, and its checkpoint is not saved. -/
  | replays {w : PgWorker} {s s' : Service} (hw : w ∈ ws) (h : w.Replays ext s s') :
      DualStep ext ws mayStandAlone s s'
  /-- A batch is committed in the KG database only. -/
  | kgOnly {w : PgWorker} {s s' : Service} (hw : w ∈ ws) (hmay : mayStandAlone w s)
      (h : w.CommitsKgOnly ext s s') : DualStep ext ws mayStandAlone s s'

/-- The checkpoint of a worker has passed an event. -/
def PgWorker.HasPassed (w : PgWorker) (s : Service) (e : StoredEvent) : Prop :=
  e ∈ s.eventStore ∧ EventReader.wants w.eventTypeStrs e = true
    ∧ e.sequenceNumber ≤ w.checkpoint s

/-- The position an event of the index of active positions is about. -/
def activePositionOf (ext : Externals) : ParsedEvent → Option PositionKey := (activeLedger ext).key

/-- **The two copies agree on what the checkpoints have passed**: the row of
the vault of an event, or of its active position, is the same in both databases
once the worker that maintains the row has passed the event. -/
structure Service.CopiesAgree (ext : Externals) (ws : List PgWorker) (s : Service) : Prop where
  /-- The columns `total_deposits` and `total_redemptions` of `market.vaults` and
  of `vault`. -/
  vaults : ∀ w ∈ ws, ∀ e, w.HasPassed s e → ∀ k,
    vaultOf ext (ParsedEvent.parseOrUnknown e) = some k → ownsVaultRow ext w.projection k = true →
      (s.stores.kg.vaults.lookup k).map VaultRow.totals
        = (s.stores.db.vault.lookup k).map VaultRow.totals
  /-- The column `shares` of `market.active_vault_position` and of
  `active_vault_position`. -/
  activeVaultPosition : ∀ w ∈ ws, ∀ e, w.HasPassed s e → ∀ k,
    activePositionOf ext (ParsedEvent.parseOrUnknown e) = some k →
      ownsActiveRow w.projection k = true →
      (s.stores.kg.activeVaultPosition.lookup k).map ActiveVaultPositionRow.shares
        = (s.stores.db.activeVaultPosition.lookup k).map ActiveVaultPositionRow.shares

/-- Whether an event moves no shares of its active position, and neither makes
nor deletes it: a deposit of no shares finds a row, a redemption finds none, or
is of no shares and finds some. -/
def ParsedEvent.LeavesShares (shares : Option ℚ) : ParsedEvent → Prop
  | deposited _ data => data.shares.val = 0 ∧ shares ≠ none
  | redeemed _ data => shares = none ∨ data.shares.val = 0 ∧ ∃ x, shares = some x ∧ 0 < x
  | _ => True

/-- **The KG commit of what a worker would read now may be left standing
alone.** A batch of deposits and redemptions of nothing may. Of an active
position that has been passed nothing may be read that moves its shares, makes
it or deletes it. -/
def PgWorker.MayStandAlone (ext : Externals) (w : PgWorker) (s : Service) : Prop :=
  match w.projection with
  | .vaultHoldersIndexDual _ => ∀ k,
      (∀ e ∈ w.readBatch s, activePositionOf ext (ParsedEvent.parseOrUnknown e) = some k →
        (ParsedEvent.parseOrUnknown e).LeavesShares
          ((s.stores.db.activeVaultPosition.lookup k).map ActiveVaultPositionRow.shares))
      ∨ (∀ e, w.HasPassed s e → activePositionOf ext (ParsedEvent.parseOrUnknown e) ≠ some k)
        ∧ ∀ e ∈ w.readBatch s, activePositionOf ext (ParsedEvent.parseOrUnknown e) = some k →
          (ParsedEvent.parseOrUnknown e).addsToShares = false
  | _ => w.ReadsNothingToAdd ext s

/-! ## The KG copies -/

section KgCopies

variable {ext : Externals} {i n : ℕ} {kg : Bool} {e : ParsedEvent}

/-- **`vault_state:dual` records an event in the KG table of vaults**, if there
is a KG pool. -/
theorem VaultStateDualProjection.kgVaults_processEvent (hext : ext.Lawful) {tx tx' : Stores}
    (h : VaultStateDualProjection.processEvent ext i n kg tx e = .ok tx') :
    tx'.kg.vaults
      = tx.kg.vaults.record (vaultLedger ext) (fun k => kg && ownsShardVault ext i n k) e := by
  cases e with
  | deposited metadata data | redeemed metadata data =>
    rw [VaultStateDualProjection.processEvent, Shard.shouldSkipShard_eq hext] at h
    show _ = if kg && Shard.ownsVault ext i n data.termId (ext.toString data.curveId) then _ else _
    cases hown : Shard.ownsVault ext i n data.termId (ext.toString data.curveId) <;>
      rw [hown] at h <;> cases h <;> cases kg <;> rfl
  | sharePriceChanged metadata data =>
    rw [VaultStateDualProjection.processEvent, Shard.shouldSkipShard_eq hext] at h
    show _ = if kg && Shard.ownsVault ext i n data.termId (ext.toString data.curveId) then _ else _
    cases hown : Shard.ownsVault ext i n data.termId (ext.toString data.curveId) with
    | false => rw [hown] at h; cases h; cases kg <;> rfl
    | true =>
      rw [hown] at h
      obtain ⟨marketCap, hcap, h⟩ := Result.bind_eq_ok.mp h
      cases h
      simp only [vaultLedger_step_sharePriceChanged metadata hcap]
      cases kg <;> rfl
  | _ => cases h; rfl

/-- `vault_state:dual` leaves the KG table of active positions alone. -/
theorem VaultStateDualProjection.kgPositions_processEvent (tx : Stores) (e : ParsedEvent)
    (tx' : Stores) (h : VaultStateDualProjection.processEvent ext i n kg tx e = .ok tx') :
    tx'.kg.activeVaultPosition = tx.kg.activeVaultPosition := by
  cases e with
  | deposited metadata data | redeemed metadata data =>
    rw [VaultStateDualProjection.processEvent] at h
    split at h <;> cases h <;> cases kg <;> rfl
  | sharePriceChanged metadata data =>
    rw [VaultStateDualProjection.processEvent] at h
    split at h
    · cases h; rfl
    · obtain ⟨marketCap, -, h⟩ := bind_eq_ok.mp h
      cases h
      cases kg <;> rfl
  | _ => cases h; rfl

/-- `vault_holders_index:dual` leaves the KG table of vaults alone, but for the
holders. -/
theorem VaultHoldersIndexDualProjection.kgVaults_processEvent (tx : Stores) (e : ParsedEvent) :
    (VaultHoldersIndexDualProjection.processEvent ext kg tx e).kg.vaults = tx.kg.vaults := by
  cases e <;> cases kg <;> rfl

/-- **`vault_holders_index:dual` records an event in the KG table of active
positions**, if there is a KG pool. -/
theorem VaultHoldersIndexDualProjection.kgPositions_processEvent (tx : Stores) (e : ParsedEvent) :
    (VaultHoldersIndexDualProjection.processEvent ext kg tx e).kg.activeVaultPosition
      = tx.kg.activeVaultPosition.record (activeLedger ext) (fun _ => kg) e := by
  cases e with
  | redeemed metadata data =>
    cases kg with
    | false => rfl
    | true => exact Table.alter_alter _ _ _ _
  | _ => cases kg <;> rfl

/-- Counting the holders of several vaults leaves the rest of every KG row
alone. -/
theorem vaultRow_refreshKgHolderCount (ks : List VaultKey) (tx : KgDb) (k : VaultKey) :
    vaultRow (ks.foldl (fun tx k => KgMarketRepo.refreshKgHolderCount tx k.termId k.curveId)
      tx).vaults k = vaultRow tx.vaults k :=
  foldl_keeps (g := fun tx : KgDb => vaultRow tx.vaults k)
    (fun _ _ => vaultRow_setHolderCount _) ks tx

/-- Counting holders leaves every KG position alone. -/
theorem kgPositions_refreshKgHolderCount (ks : List VaultKey) (tx : KgDb) :
    (ks.foldl (fun tx k => KgMarketRepo.refreshKgHolderCount tx k.termId k.curveId)
      tx).activeVaultPosition = tx.activeVaultPosition :=
  foldl_keeps (g := KgDb.activeVaultPosition)
    (fun _ _ => by unfold KgMarketRepo.refreshKgHolderCount; rfl) ks tx

/-- The projections that maintain the KG row of a vault. -/
def ownsKgVaultRow (ext : Externals) : PgProjection → VaultKey → Bool
  | .vaultStateDual i n kg => fun k => kg && ownsShardVault ext i n k
  | _ => fun _ => false

/-- The projections that maintain the KG row of an active position. -/
def ownsKgActiveRow : PgProjection → PositionKey → Bool
  | .vaultHoldersIndexDual kg => fun _ => kg
  | _ => fun _ => false

/-- **A batch is applied to the KG vaults its projection owns.** -/
theorem kgVaultRow_processParsedBatch (hext : ext.Lawful) {p : PgProjection}
    {pool pool' : Stores} {events : List ParsedEvent}
    (h : p.processParsedBatch ext pool events = .ok pool') (k : VaultKey) :
    vaultRow pool'.kg.vaults k
      = if ownsKgVaultRow ext p k then (vaultLedger ext).apply k (vaultRow pool.kg.vaults k) events
        else vaultRow pool.kg.vaults k := by
  cases p with
  | vaultStateDual i n kg =>
    obtain ⟨tx, htx, h⟩ := bind_eq_ok.mp h
    cases h
    have hrefresh : ∀ f : KgDb → KgDb, (∀ db, vaultRow (f db).vaults k = vaultRow db.vaults k) →
        vaultRow (VaultStateDualProjection.withKg kg tx f).kg.vaults k
          = vaultRow tx.kg.vaults k := by
      intro f hf
      cases kg with
      | false => rfl
      | true => exact hf _
    refine (hrefresh _ fun db => vaultRow_refreshKgHolderCount _ db k).trans ?_
    refine (vaultLedger ext).foldlM_row (v := fun tx : Stores => vaultRow tx.kg.vaults k)
      (fun tx e tx' htx => ?_) htx
    rw [VaultStateDualProjection.kgVaults_processEvent hext htx]
    exact vaultRow_record _
  | vaultHoldersIndexDual kg =>
    cases h
    refine (foldl_keeps (g := fun tx : Stores => vaultRow tx.kg.vaults k) (fun tx k' => ?_) _
      _).trans (congrArg (vaultRow · k) (foldl_keeps (g := fun tx : Stores => tx.kg.vaults)
        VaultHoldersIndexDualProjection.kgVaults_processEvent events pool))
    cases kg with
    | false => rfl
    | true => exact vaultRow_setHolderCount _
  | vaultState i n =>
    obtain ⟨db, -, h⟩ := bind_eq_ok.mp h
    cases h
    rfl
  | _ => cases h; rfl

/-- **A batch is applied to the KG positions its projection owns.** -/
theorem kgActive_processParsedBatch {p : PgProjection} {pool pool' : Stores}
    {events : List ParsedEvent} (h : p.processParsedBatch ext pool events = .ok pool')
    (k : PositionKey) :
    pool'.kg.activeVaultPosition.lookup k
      = if ownsKgActiveRow p k then
          (activeLedger ext).apply k (pool.kg.activeVaultPosition.lookup k) events
        else pool.kg.activeVaultPosition.lookup k := by
  cases p with
  | vaultStateDual i n kg =>
    obtain ⟨tx, htx, h⟩ := bind_eq_ok.mp h
    cases h
    have hpos : tx.kg.activeVaultPosition = pool.kg.activeVaultPosition :=
      foldlM_keeps (g := fun tx : Stores => tx.kg.activeVaultPosition)
        VaultStateDualProjection.kgPositions_processEvent htx
    show (VaultStateDualProjection.withKg kg tx _).kg.activeVaultPosition.lookup k = _
    rw [← hpos]
    cases kg with
    | false => rfl
    | true => exact congrArg (Finmap.lookup k) (kgPositions_refreshKgHolderCount _ _)
  | vaultHoldersIndexDual kg =>
    cases h
    refine (foldl_keeps (g := fun tx : Stores => tx.kg.activeVaultPosition.lookup k)
      (fun tx k' => ?_) _ _).trans ?_
    · cases kg <;> rfl
    · refine (activeLedger ext).foldl_row
        (v := fun tx : Stores => tx.kg.activeVaultPosition.lookup k) (fun tx e => ?_) pool
      rw [VaultHoldersIndexDualProjection.kgPositions_processEvent]
      exact Table.lookup_record _ _ _ _ _
  | vaultState i n =>
    obtain ⟨db, -, h⟩ := bind_eq_ok.mp h
    cases h
    rfl
  | _ => cases h; rfl

end KgCopies

/-! ## Rows that are kept twice -/

/-- Rows that are kept in both databases. -/
structure Mirror (ext : Externals) (κ ρ : Type) [DecidableEq κ] where
  /-- The rows of the legacy database. -/
  legacy : ReadModel ext κ ρ
  /-- The rows of the KG database. -/
  kg : ReadModel ext κ ρ
  /-- Both follow the same ledger. -/
  ledger_eq : kg.ledger = legacy.ledger
  /-- The legacy rows do not depend on the KG database. -/
  legacy_rows : ∀ pool kgDb, legacy.rows { pool with kg := kgDb } = legacy.rows pool
  /-- The KG rows do not depend on the legacy database. -/
  kg_rows : ∀ pool db, kg.rows { pool with db } = kg.rows pool
  /-- What is known of a row an event of which has been processed. -/
  settled : ρ → Prop
  /-- A batch settles the rows its events concern, and keeps those that are
  settled so. -/
  settled_process : ∀ {p pool pool' events}, p.processParsedBatch ext pool events = .ok pool' →
    ∀ k, kg.owns p k = true →
      settled (legacy.rows pool k) ∨ (∃ e ∈ events, legacy.ledger.concerns k e = true) →
      settled (legacy.rows pool' k)

namespace Mirror

variable {ext : Externals} {κ ρ : Type} [DecidableEq κ] (M : Mirror ext κ ρ)

/-- A worker has passed an event that concerns a row. -/
def Passed (w : PgWorker) (s : Service) (k : κ) : Prop :=
  ∃ e, w.HasPassed s e
    ∧ M.legacy.ledger.concerns k (ParsedEvent.parseOrUnknown e) = true

/-- What a list of events makes of a row. -/
def apply (k : κ) (r : ρ) (events : List StoredEvent) : ρ :=
  M.legacy.ledger.apply k r (parseBatchOnce events)

/-- Some events may be applied to a row ahead of time: applying them again does
not show, and where a checkpoint has passed, applying them does not either. -/
structure Quiet (w : PgWorker) (s : Service) (k : κ) (events : List StoredEvent) : Prop where
  twice : M.apply k (M.apply k (M.legacy.rows s.stores k) events) events
    = M.apply k (M.legacy.rows s.stores k) events
  once : M.Passed w s k → M.apply k (M.legacy.rows s.stores k) events = M.legacy.rows s.stores k

/-- Workers that maintain rows in both databases, no two of them the same row or
under the same name. -/
structure Staffed (ws : List PgWorker) : Prop where
  /-- Workers that keep their marks under one name are one worker. -/
  names : ∀ w ∈ ws, ∀ w' ∈ ws, w.projection.checkpointName = w'.projection.checkpointName → w = w'
  /-- Workers that maintain one row are one worker. -/
  solo : ∀ k, ∀ w ∈ ws, ∀ w' ∈ ws, M.legacy.owns w.projection k = true →
    M.legacy.owns w'.projection k = true → w = w'
  /-- A row is maintained in both databases by the same worker. -/
  both : ∀ w ∈ ws, M.kg.owns w.projection = M.legacy.owns w.projection

/-- **Every KG row is its legacy row, or is ahead of it** by events that are
read next and may be applied ahead of time. -/
structure Ahead (ws : List PgWorker) (s : Service) : Prop where
  inOrder : Feed.InOrder StoredEvent.sequenceNumber s.eventStore
  sequence_pos : ∀ e ∈ s.eventStore, 0 < e.sequenceNumber
  /-- A checkpoint is initial or the number of an event. -/
  checkpoint_mem : ∀ w ∈ ws, w.checkpoint s = 0
    ∨ ∃ e ∈ s.eventStore, w.checkpoint s = e.sequenceNumber
  /-- The rows of passed events are settled. -/
  settled : ∀ w ∈ ws, ∀ k, M.legacy.owns w.projection k = true → M.Passed w s k →
    M.settled (M.legacy.rows s.stores k)
  /-- What the KG rows are. -/
  ahead : ∀ w ∈ ws, ∀ k, M.legacy.owns w.projection k = true →
    ∃ early, early <+: w.readBatch s ∧ M.Quiet w s k early
      ∧ M.kg.rows s.stores k = M.apply k (M.legacy.rows s.stores k) early

variable {M} {ws : List PgWorker} {w w' : PgWorker} {s s' : Service} {k : κ}
  {events early : List StoredEvent}

@[simp] theorem apply_nil (r : ρ) : M.apply k r [] = r := rfl

/-- Nothing may be applied ahead of time. -/
theorem Quiet.nil : M.Quiet w s k [] := ⟨rfl, fun _ => rfl⟩

/-- **A batch swallows a beginning of it that was applied ahead of time.** -/
theorem Quiet.apply_apply (h : M.Quiet w s k early) (hpre : early <+: events) :
    M.apply k (M.apply k (M.legacy.rows s.stores k) early) events
      = M.apply k (M.legacy.rows s.stores k) events := by
  obtain ⟨rest, rfl⟩ := hpre
  have hsplit : ∀ r, M.apply k r (early ++ rest) = M.apply k (M.apply k r early) rest := by
    intro r
    unfold apply parseBatchOnce
    rw [List.map_append, Ledger.apply_append]
  rw [hsplit, hsplit, h.twice]

/-- A step that leaves a row, what is read next and what has been passed alone
leaves a row that is ahead so. -/
theorem Quiet.congr (h : M.Quiet w s k early)
    (hrow : M.legacy.rows s'.stores k = M.legacy.rows s.stores k)
    (hpassed : M.Passed w s' k → M.Passed w s k) : M.Quiet w s' k early where
  twice := by rw [hrow]; exact h.twice
  once hp := by rw [hrow]; exact h.once (hpassed hp)

/-- A passed row is the same in both databases. -/
theorem Ahead.eq_of_passed (h : M.Ahead ws s) (hw : w ∈ ws)
    (hk : M.legacy.owns w.projection k = true) (hp : M.Passed w s k) :
    M.kg.rows s.stores k = M.legacy.rows s.stores k := by
  obtain ⟨early, -, hquiet, hrow⟩ := h.ahead w hw k hk
  rw [hrow, hquiet.once hp]

/-! ### What a batch does -/

/-- What a batch does to the rows of its worker in both databases. -/
theorem rows_of_applyBatch (hws : M.Staffed ws) (hw : w ∈ ws) {s₁ : Service}
    (h : w.applyBatch ext s events = .ok s₁) (k : κ) :
    M.legacy.rows s₁.stores k
        = (if M.legacy.owns w.projection k then M.apply k (M.legacy.rows s.stores k) events
          else M.legacy.rows s.stores k)
      ∧ M.kg.rows s₁.stores k
        = if M.legacy.owns w.projection k then M.apply k (M.kg.rows s.stores k) events
          else M.kg.rows s.stores k := by
  obtain ⟨pool, hpool, hs₁⟩ := Result.bind_eq_ok.mp h
  cases hs₁
  refine ⟨M.legacy.rows_process hpool k, ?_⟩
  have hkg := M.kg.rows_process hpool k
  rw [hws.both w hw, M.ledger_eq] at hkg
  exact hkg

/-- A batch is committed in the service it is applied to. -/
theorem applyBatch_keeps {s₁ : Service} (h : w.applyBatch ext s events = .ok s₁) :
    s₁.eventStore = s.eventStore ∧ s₁.checkpoints = s.checkpoints := by
  obtain ⟨pool, -, hs₁⟩ := Result.bind_eq_ok.mp h
  cases hs₁
  exact ⟨rfl, rfl⟩

/-! ### What has been passed -/

/-- What is passed depends on the event store and the checkpoints. -/
theorem Passed.congr (h : M.Passed w s' k) (hstore : s'.eventStore = s.eventStore)
    (hckpt : w.checkpoint s' = w.checkpoint s) : M.Passed w s k := by
  obtain ⟨e, ⟨hmem, hwants, hle⟩, hk⟩ := h
  exact ⟨e, ⟨hstore ▸ hmem, hwants, hckpt ▸ hle⟩, hk⟩

/-- What is read depends on the event store and the checkpoint. -/
theorem readBatch_congr (hstore : s'.eventStore = s.eventStore)
    (hckpt : w.checkpoint s' = w.checkpoint s) : w.readBatch s' = w.readBatch s := by
  unfold PgWorker.readBatch
  rw [hstore, hckpt]

/-- A checkpoint that is saved is the number of the last event of its batch. -/
theorem checkpoint_saveCheckpoint {batch : List StoredEvent} (hne : batch ≠ [])
    (w w' : PgWorker) (s : Service) :
    w'.checkpoint (w.saveCheckpoint s batch)
      = if w'.projection.checkpointName = w.projection.checkpointName then
          (batch.getLast hne).sequenceNumber
        else w'.checkpoint s := by
  unfold PgWorker.saveCheckpoint resolveCheckpointTarget
  rw [List.getLast?_eq_some_getLast hne]
  exact CheckpointStore.getCheckpoint_saveCheckpoint _ _ _ _ _

theorem saveCheckpoint_keeps (w : PgWorker) (s : Service) (batch : List StoredEvent) :
    (w.saveCheckpoint s batch).eventStore = s.eventStore
      ∧ (w.saveCheckpoint s batch).stores = s.stores := by
  unfold PgWorker.saveCheckpoint
  split <;> exact ⟨rfl, rfl⟩

/-- **Saving the checkpoint of a batch passes the batch**, and nothing else. -/
theorem hasPassed_saveCheckpoint {e : StoredEvent} {s₁ : Service}
    (hord : Feed.InOrder StoredEvent.sequenceNumber s.eventStore) (hne : w.readBatch s ≠ [])
    (hstore : s₁.eventStore = s.eventStore)
    (h : w.HasPassed (w.saveCheckpoint s₁ (w.readBatch s)) e) :
    w.HasPassed s e ∨ e ∈ w.readBatch s := by
  obtain ⟨hmem, hwants, hle⟩ := h
  rw [(saveCheckpoint_keeps _ _ _).1, hstore] at hmem
  rw [checkpoint_saveCheckpoint hne, if_pos rfl] at hle
  by_cases hold : e.sequenceNumber ≤ w.checkpoint s
  · exact .inl ⟨hmem, hwants, hold⟩
  · exact .inr (EventReader.mem_readBatchMulti_of_le_getLast
      (fun _ ha _ hb => hord.eq_of_pos_eq ha hb) hmem hwants (Nat.lt_of_not_le hold)
      (List.getLast?_eq_some_getLast hne) hle)

/-! ### Steps -/

/-- Growth keeps what is ahead so. -/
theorem Ahead.grows (h : M.Ahead ws s) (hs : s.Grows s') : M.Ahead ws s' := by
  obtain ⟨es, hord, hpos, rfl⟩ := hs
  have hnew : ∀ w ∈ ws, ∀ e ∈ es, w.checkpoint s < e.sequenceNumber := by
    intro w hw e he
    obtain hc | ⟨f, hf, hc⟩ := h.checkpoint_mem w hw
    · exact hc ▸ hpos e he
    · exact hc ▸ (List.pairwise_append.mp hord).2.2 f hf e he
  have hpassed : ∀ w ∈ ws, ∀ k,
      M.Passed w { s with eventStore := s.eventStore ++ es } k → M.Passed w s k := by
    rintro w hw k ⟨e, ⟨hmem, hwants, hle⟩, hk⟩
    obtain hmem | hmem := List.mem_append.mp hmem
    · exact ⟨e, ⟨hmem, hwants, hle⟩, hk⟩
    · exact absurd hle (Nat.not_le.mpr (hnew w hw e hmem))
  exact {
    inOrder := hord
    sequence_pos := fun e he =>
      (List.mem_append.mp he).elim (h.sequence_pos e) (hpos e)
    checkpoint_mem := fun w hw => (h.checkpoint_mem w hw).imp_right
      fun ⟨e, he, hc⟩ => ⟨e, List.mem_append_left _ he, hc⟩
    settled := fun w hw k hk hp => h.settled w hw k hk (hpassed w hw k hp)
    ahead := fun w hw k hk => by
      obtain ⟨early, hpre, hquiet, hrow⟩ := h.ahead w hw k hk
      refine ⟨early, hpre.trans ?_, hquiet.congr rfl (hpassed w hw k), hrow⟩
      unfold PgWorker.readBatch
      rw [EventReader.readBatchMulti_eq_poll _ _ _ h.inOrder,
        EventReader.readBatchMulti_eq_poll _ _ _ hord]
      exact Feed.poll_prefix_grow }

/-- A worker leaves the rows of the others alone. -/
theorem Staffed.owns_eq_false (hws : M.Staffed ws) (hw : w ∈ ws) (hw' : w' ∈ ws) (hne : w' ≠ w)
    (hk : M.legacy.owns w'.projection k = true) : M.legacy.owns w.projection k = false := by
  by_contra h
  exact hne (hws.solo k w' hw' w hw hk (Bool.eq_true_of_not_eq_false h))

/-- **A batch that is committed in both databases brings its rows level**, and
settles those its events concern. -/
theorem Ahead.applyBatch (h : M.Ahead ws s) (hws : M.Staffed ws) (hw : w ∈ ws) {s₁ : Service}
    (hok : w.applyBatch ext s (w.readBatch s) = .ok s₁) :
    M.Ahead ws s₁ ∧ ∀ k, M.legacy.owns w.projection k = true →
      M.kg.rows s₁.stores k = M.legacy.rows s₁.stores k
      ∧ ((∃ e ∈ w.readBatch s,
            M.legacy.ledger.concerns k (ParsedEvent.parseOrUnknown e) = true) →
          M.settled (M.legacy.rows s₁.stores k)) := by
  obtain ⟨hstore, hckpts⟩ := applyBatch_keeps hok
  have hckpt : ∀ w' : PgWorker, w'.checkpoint s₁ = w'.checkpoint s := fun w' =>
    congrArg (·.getCheckpoint w'.projection.checkpointName "pg") hckpts
  have hpassed : ∀ {w' k}, M.Passed w' s₁ k → M.Passed w' s k := fun hp =>
    hp.congr hstore (hckpt _)
  have hrows := rows_of_applyBatch hws hw hok
  -- what was applied ahead of time is swallowed by the batch
  have hlevel : ∀ k, M.legacy.owns w.projection k = true →
      M.kg.rows s₁.stores k = M.legacy.rows s₁.stores k := by
    intro k hk
    obtain ⟨early, hpre, hquiet, hrow⟩ := h.ahead w hw k hk
    rw [(hrows k).1, (hrows k).2, if_pos hk, if_pos hk, hrow, hquiet.apply_apply hpre]
  -- a row that was settled stays so, and an event of the batch settles its row
  have hsettled : ∀ k, M.legacy.owns w.projection k = true →
      M.settled (M.legacy.rows s.stores k) ∨ (∃ e ∈ w.readBatch s,
        M.legacy.ledger.concerns k (ParsedEvent.parseOrUnknown e) = true) →
      M.settled (M.legacy.rows s₁.stores k) := by
    intro k hk hor
    obtain ⟨pool, hpool, hs₁⟩ := Result.bind_eq_ok.mp hok
    cases hs₁
    exact M.settled_process hpool k (hws.both w hw ▸ hk)
      (hor.imp_right fun ⟨e, he, hc⟩ => ⟨_, List.mem_map_of_mem he, hc⟩)
  refine ⟨{
    inOrder := hstore ▸ h.inOrder
    sequence_pos := hstore ▸ h.sequence_pos
    checkpoint_mem := fun w' hw' => by
      rw [hckpt, hstore]
      exact h.checkpoint_mem w' hw'
    settled := fun w' hw' k hk hp => ?_
    ahead := fun w' hw' k hk => ?_ }, fun k hk => ⟨hlevel k hk, fun he => hsettled k hk (.inr he)⟩⟩
  · have hs := h.settled w' hw' k hk (hpassed hp)
    by_cases hown : M.legacy.owns w.projection k = true
    · exact hsettled k hown (.inl hs)
    · rw [(hrows k).1, if_neg hown]
      exact hs
  · by_cases hww : w' = w
    · subst hww
      exact ⟨[], List.nil_prefix, Quiet.nil, hlevel k hk⟩
    · -- the rows of other workers are left as far ahead as they were
      have hown := hws.owns_eq_false hw hw' hww hk
      obtain ⟨early, hpre, hquiet, hrow⟩ := h.ahead w' hw' k hk
      have hlegacy : M.legacy.rows s₁.stores k = M.legacy.rows s.stores k := by
        rw [(hrows k).1, hown]
        rfl
      refine ⟨early, readBatch_congr hstore (hckpt w') ▸ hpre, hquiet.congr hlegacy hpassed, ?_⟩
      rw [(hrows k).2, hown, hlegacy]
      exact hrow

/-- Saving a checkpoint keeps what is ahead so. -/
theorem Ahead.advances (h : M.Ahead ws s) (hws : M.Staffed ws) (hw : w ∈ ws)
    (hs : w.Advances ext s s') : M.Ahead ws s' := by
  obtain ⟨hne, s₁, hok, rfl⟩ := hs
  obtain ⟨hstore, hckpts⟩ := applyBatch_keeps hok
  obtain ⟨h₁, hbatch⟩ := h.applyBatch hws hw hok
  obtain ⟨hstore', hstores'⟩ := saveCheckpoint_keeps w s₁ (w.readBatch s)
  have hother : ∀ w' ∈ ws, w' ≠ w →
      w'.checkpoint (w.saveCheckpoint s₁ (w.readBatch s)) = w'.checkpoint s₁ := by
    intro w' hw' hww
    rw [checkpoint_saveCheckpoint hne, if_neg fun hname => hww (hws.names w' hw' w hw hname)]
  -- what has been passed now had been before, or was in the batch
  have hpassed : ∀ k, M.Passed w (w.saveCheckpoint s₁ (w.readBatch s)) k →
      M.Passed w s₁ k ∨ ∃ e ∈ w.readBatch s,
        M.legacy.ledger.concerns k (ParsedEvent.parseOrUnknown e) = true := by
    rintro k ⟨e, he, hk⟩
    obtain ⟨hmem, hwants, hle⟩ | he := hasPassed_saveCheckpoint h.inOrder hne hstore he
    · refine .inl ⟨e, ⟨hstore ▸ hmem, hwants, hle.trans_eq ?_⟩, hk⟩
      exact congrArg (·.getCheckpoint w.projection.checkpointName "pg") hckpts.symm
    · exact .inr ⟨e, he, hk⟩
  refine {
    inOrder := hstore' ▸ h₁.inOrder
    sequence_pos := hstore' ▸ h₁.sequence_pos
    checkpoint_mem := fun w' hw' => ?_
    settled := fun w' hw' k hk hp => ?_
    ahead := fun w' hw' k hk => ?_ }
  · rw [hstore']
    by_cases hww : w' = w
    · refine .inr ⟨(w.readBatch s).getLast hne, ?_, ?_⟩
      · exact hstore ▸ (EventReader.mem_of_mem_readBatchMulti (List.getLast_mem hne)).1
      · rw [checkpoint_saveCheckpoint hne, if_pos (by rw [hww])]
    · rw [hother w' hw' hww]
      exact h₁.checkpoint_mem w' hw'
  · rw [hstores']
    by_cases hww : w' = w
    · subst hww
      exact (hpassed k hp).elim (h₁.settled w' hw k hk) (hbatch k hk).2
    · exact h₁.settled w' hw' k hk (hp.congr hstore' (hother w' hw' hww))
  · rw [hstores']
    by_cases hww : w' = w
    · -- the worker's own rows are level again
      subst hww
      exact ⟨[], List.nil_prefix, Quiet.nil, (hbatch k hk).1⟩
    · obtain ⟨early, hpre, hquiet, hrow⟩ := h₁.ahead w' hw' k hk
      refine ⟨early, ?_, hquiet.congr (by rw [hstores']) fun hp =>
        hp.congr hstore' (hother w' hw' hww), hrow⟩
      rw [readBatch_congr hstore' (hother w' hw' hww)]
      exact hpre

/-- **A KG commit may be left standing alone if its batch may be applied ahead
of time.** -/
theorem Ahead.kgOnly (h : M.Ahead ws s) (hws : M.Staffed ws) (hw : w ∈ ws)
    (hquiet : ∀ k, M.legacy.owns w.projection k = true →
      (M.Passed w s k → M.settled (M.legacy.rows s.stores k)) → M.Quiet w s k (w.readBatch s))
    (hs : w.CommitsKgOnly ext s s') : M.Ahead ws s' := by
  obtain ⟨-, s₁, hok, rfl⟩ := hs
  have hrows := rows_of_applyBatch hws hw hok
  have hlegacy : ∀ k, M.legacy.rows { s.stores with kg := s₁.stores.kg } k
      = M.legacy.rows s.stores k := fun k => congrFun (M.legacy_rows _ _) k
  have hkg : ∀ k, M.kg.rows { s.stores with kg := s₁.stores.kg } k = M.kg.rows s₁.stores k :=
    fun k => (congrFun (M.kg_rows s₁.stores s.stores.db) k)
  refine {
    inOrder := h.inOrder
    sequence_pos := h.sequence_pos
    checkpoint_mem := h.checkpoint_mem
    settled := fun w' hw' k hk hp => ?_
    ahead := fun w' hw' k hk => ?_ }
  · show M.settled (M.legacy.rows { s.stores with kg := s₁.stores.kg } k)
    rw [hlegacy]
    exact h.settled w' hw' k hk hp
  · show ∃ early, early <+: w'.readBatch s ∧ _
      ∧ M.kg.rows { s.stores with kg := s₁.stores.kg } k
        = M.apply k (M.legacy.rows { s.stores with kg := s₁.stores.kg } k) early
    obtain ⟨early, hpre, hearly, hrow⟩ := h.ahead w' hw' k hk
    rw [hlegacy, hkg, (hrows k).2]
    by_cases hww : w' = w
    · -- the whole batch is ahead now
      subst hww
      refine ⟨w'.readBatch s, List.prefix_rfl,
        (hquiet k hk (h.settled w' hw k hk)).congr (hlegacy k) id, ?_⟩
      rw [if_pos hk, hrow, hearly.apply_apply hpre]
    · refine ⟨early, hpre, hearly.congr (hlegacy k) id, ?_⟩
      rw [hws.owns_eq_false hw hw' hww hk]
      exact hrow

/-- Before anything is processed, nothing is ahead. -/
theorem Ahead.of_fresh (h : s.Fresh) : M.Ahead ws s where
  inOrder := h.inOrder
  sequence_pos := h.sequence_pos
  checkpoint_mem w _ := by
    refine .inl ?_
    unfold PgWorker.checkpoint
    rw [h.checkpoints_eq]
    rfl
  settled w _ k _ hp := by
    obtain ⟨e, ⟨hmem, -, hle⟩, -⟩ := hp
    refine absurd (h.sequence_pos e hmem) (Nat.not_lt.mpr ?_)
    unfold PgWorker.checkpoint at hle
    rw [h.checkpoints_eq] at hle
    exact hle
  ahead w _ k _ := by
    refine ⟨[], List.nil_prefix, Quiet.nil, ?_⟩
    rw [h.stores_eq, M.kg.rows_start, M.ledger_eq]
    exact (M.legacy.rows_start k).symm

/-- **A run keeps the KG rows level or ahead**, if a KG commit is left standing
alone by batches that may be applied ahead of time only. -/
theorem Ahead.run {mayStandAlone : PgWorker → Service → Prop} (h : M.Ahead ws s)
    (hws : M.Staffed ws)
    (hquiet : ∀ w ∈ ws, ∀ s, mayStandAlone w s → ∀ k, M.legacy.owns w.projection k = true →
      (M.Passed w s k → M.settled (M.legacy.rows s.stores k)) → M.Quiet w s k (w.readBatch s))
    (hrun : ReflTransGen (Service.DualStep ext ws mayStandAlone) s s') : M.Ahead ws s' := by
  refine Run.invariant (P := M.Ahead ws) (fun s s' h hstep => ?_) hrun h
  cases hstep with
  | grows hs => exact h.grows hs
  | advances hw hs => exact h.advances hws hw hs
  | replays hw hs => exact (h.applyBatch hws hw hs.2).1
  | kgOnly hw hmay hs => exact h.kgOnly hws hw (hquiet _ hw _ hmay) hs

end Mirror

/-! ## The copies of the market state -/

section Market

variable {ext : Externals} {p : PgProjection} {e : ParsedEvent} {config : ProjectionsConfig}

theorem ownsVaultRow_of_kg {k : VaultKey} (h : ownsKgVaultRow ext p k = true) :
    ownsVaultRow ext p k = true := by
  cases p with
  | vaultStateDual i n kg => exact Bool.and_elim_right h
  | _ => cases h

theorem ownsActiveRow_of_kg {k : PositionKey} (h : ownsKgActiveRow p k = true) :
    ownsActiveRow p k = true := by
  cases p with
  | vaultHoldersIndexDual => rfl
  | _ => cases h

/-- The KG rows of vaults as a read model. -/
def kgVaultRows (hext : ext.Lawful) : ReadModel ext VaultKey (Option VaultRow) where
  ledger := vaultLedger ext
  rows pool := vaultRow pool.kg.vaults
  owns := ownsKgVaultRow ext
  rows_start _ := rfl
  rows_process := kgVaultRow_processParsedBatch hext
  consumed hp hk := (vaultRows hext).consumed (ownsVaultRow_of_kg hp) hk

/-- The KG totals of vaults as a read model. -/
def kgVaultTotals (hext : ext.Lawful) : ReadModel ext VaultKey (Option Totals) :=
  (kgVaultRows hext).columns (Option.map VaultRow.totals) (totalsStep ext) vaultLedger_step_totals

/-- The KG rows of active positions as a read model. -/
def kgActivePositions (ext : Externals) :
    ReadModel ext PositionKey (Option ActiveVaultPositionRow) where
  ledger := activeLedger ext
  rows pool k := pool.kg.activeVaultPosition.lookup k
  owns := ownsKgActiveRow
  rows_start _ := rfl
  rows_process := kgActive_processParsedBatch
  consumed hp hk := (activePositions ext).consumed (ownsActiveRow_of_kg hp) hk

/-- The shares of KG active positions as a read model. -/
def kgActiveShares (ext : Externals) : ReadModel ext PositionKey (Option ℚ) :=
  (kgActivePositions ext).columns (Option.map ActiveVaultPositionRow.shares) activeSharesStep
    activeLedger_step_shares

theorem kgVaultTotals_rows (hext : ext.Lawful) (pool : Stores) (k : VaultKey) :
    (kgVaultTotals hext).rows pool k = (pool.kg.vaults.lookup k).map VaultRow.totals := by
  show ((pool.kg.vaults.lookup k).map VaultRow.withoutHolders).map VaultRow.totals = _
  rw [Option.map_map]
  rfl

/-- An event keeps the row of a vault. -/
theorem totalsStep_isSome (r : Option Totals) (e : ParsedEvent) (h : r.isSome = true) :
    (totalsStep ext r e).isSome = true := by
  cases e with
  | sharePriceChanged metadata data =>
    cases hcap : computeMarketCap ext (ext.toString data.totalShares)
      (ext.toString data.sharePrice) with
    | ok marketCap => simp only [totalsStep, hcap, Option.isSome_some]
    | error err => simpa only [totalsStep, hcap] using h
  | deposited metadata data | redeemed metadata data => rfl
  | _ => exact h

/-- An event that is processed makes a row for its vault. -/
theorem totalsStep_isSome_of_processed (hext : ext.Lawful) {i n : ℕ} {kg : Bool} {tx tx' : Stores}
    {k : VaultKey} (h : VaultStateDualProjection.processEvent ext i n kg tx e = .ok tx')
    (hk : vaultOf ext e = some k) (hown : ownsShardVault ext i n k = true) (r : Option Totals) :
    (totalsStep ext r e).isSome = true := by
  cases e with
  | deposited | redeemed => rfl
  | sharePriceChanged metadata data =>
    cases hk
    rw [VaultStateDualProjection.processEvent, Shard.shouldSkipShard_eq hext] at h
    have hown' : Shard.ownsVault ext i n data.termId (ext.toString data.curveId) = true := hown
    rw [hown'] at h
    obtain ⟨marketCap, hcap, -⟩ := Result.bind_eq_ok.mp h
    simp only [totalsStep, hcap, Option.isSome_some]
  | _ => cases hk

/-- The totals of vaults, in both databases. -/
def totalsMirror (hext : ext.Lawful) : Mirror ext VaultKey (Option Totals) where
  legacy := vaultTotals hext
  kg := kgVaultTotals hext
  ledger_eq := rfl
  legacy_rows _ _ := rfl
  kg_rows _ _ := rfl
  settled r := r.isSome = true
  settled_process {p pool pool' events} h k hown hor := by
    have hown' : (vaultTotals hext).owns p k = true := ownsVaultRow_of_kg hown
    rw [(vaultTotals hext).rows_process h k, if_pos hown']
    refine (totalsLedger ext).apply_of_mem totalsStep_isSome (hor.imp_right ?_)
    rintro ⟨e, he, hk⟩
    refine ⟨e, he, hk, fun r => ?_⟩
    cases p with
    | vaultStateDual i n kg =>
      obtain ⟨tx, htx, -⟩ := Result.bind_eq_ok.mp h
      obtain ⟨s₁, s₂, hs⟩ := Result.foldlM_step_of_mem htx he
      exact totalsStep_isSome_of_processed hext hs (of_decide_eq_true hk)
        (Bool.and_elim_right hown) r
    | _ => cases hown

/-- The shares of active positions, in both databases. -/
def sharesMirror (ext : Externals) : Mirror ext PositionKey (Option ℚ) where
  legacy := activeShares ext
  kg := kgActiveShares ext
  ledger_eq := rfl
  legacy_rows _ _ := rfl
  kg_rows _ _ := rfl
  settled _ := True
  settled_process _ _ _ _ := trivial

/-! ## What may be applied ahead of time -/

/-- A worker of a dual projection is one of a shard, or the one of the index. -/
theorem mem_dualWorkers {w : PgWorker} : w ∈ config.dualWorkers
    ↔ (∃ i < config.positionTrackingShards,
        w = ⟨.vaultStateDual i config.positionTrackingShards true, config.batchSize⟩)
      ∨ w = ⟨.vaultHoldersIndexDual true, config.batchSize⟩ := by
  unfold ProjectionsConfig.dualWorkers
  simp [eq_comm]

theorem fits_of_mem_dualWorkers {w : PgWorker} (hw : w ∈ config.dualWorkers) :
    w.projection.Fits config.positionTrackingShards true ∧ w.batchSize = config.batchSize := by
  obtain ⟨i, hi, rfl⟩ | rfl := mem_dualWorkers.mp hw
  · exact ⟨⟨hi, rfl, rfl⟩, rfl⟩
  · exact ⟨rfl, rfl⟩

/-- Two dual workers of one projection are one worker. -/
theorem dualWorkers_eq {w w' : PgWorker} (hw : w ∈ config.dualWorkers)
    (hw' : w' ∈ config.dualWorkers) (h : w.projection = w'.projection) : w = w' := by
  have hsize := (fits_of_mem_dualWorkers hw).2.trans (fits_of_mem_dualWorkers hw').2.symm
  cases w
  cases w'
  cases h
  cases hsize
  rfl

theorem dualWorkers_names {w w' : PgWorker} (hw : w ∈ config.dualWorkers)
    (hw' : w' ∈ config.dualWorkers)
    (h : w.projection.checkpointName = w'.projection.checkpointName) : w = w' :=
  dualWorkers_eq hw hw' (PgProjection.eq_of_checkpointName_eq (fits_of_mem_dualWorkers hw).1
    (fits_of_mem_dualWorkers hw').1 h)

/-- The dual workers maintain the totals of vaults. -/
theorem staffed_totalsMirror (hext : ext.Lawful) :
    (totalsMirror hext).Staffed config.dualWorkers where
  names _ hw _ hw' := dualWorkers_names hw hw'
  solo k w hw w' hw' hk hk' := by
    have hname : ∀ {w}, w ∈ config.dualWorkers → ownsVaultRow ext w.projection k = true →
        w.projection.name = "vault_state:dual" := by
      intro w hw hk
      obtain ⟨i, -, rfl⟩ | rfl := mem_dualWorkers.mp hw
      · rfl
      · cases hk
    have hfits := (fits_of_mem_dualWorkers hw).1
    have hfits' := (fits_of_mem_dualWorkers hw').1
    refine dualWorkers_eq hw hw' (PgProjection.eq_of_name_eq hfits hfits'
      ((hname hw hk).trans (hname hw' hk').symm) ?_)
    exact ((ownsVaultRow_iff hfits (.inr (hname hw hk))).mp hk).trans
      ((ownsVaultRow_iff hfits' (.inr (hname hw' hk'))).mp hk').symm
  both w hw := by
    obtain ⟨i, -, rfl⟩ | rfl := mem_dualWorkers.mp hw
    · funext k
      exact Bool.true_and _
    · rfl

/-- The dual workers maintain the active positions. -/
theorem staffed_sharesMirror : (sharesMirror ext).Staffed config.dualWorkers where
  names _ hw _ hw' := dualWorkers_names hw hw'
  solo k w hw w' hw' hk hk' := by
    obtain ⟨i, -, rfl⟩ | rfl := mem_dualWorkers.mp hw
    · cases hk
    obtain ⟨i, -, rfl⟩ | rfl := mem_dualWorkers.mp hw'
    · cases hk'
    rfl
  both w hw := by
    obtain ⟨i, -, rfl⟩ | rfl := mem_dualWorkers.mp hw <;> rfl

/-- Events that add nothing to totals may be applied ahead of time. -/
theorem quiet_totalsMirror (hext : ext.Lawful) {w : PgWorker} (hw : w ∈ config.dualWorkers)
    {s : Service} (hmay : w.MayStandAlone ext s) {k : VaultKey}
    (hk : (totalsMirror hext).legacy.owns w.projection k = true)
    (hsettled : (totalsMirror hext).Passed w s k →
      (totalsMirror hext).settled ((totalsMirror hext).legacy.rows s.stores k)) :
    (totalsMirror hext).Quiet w s k (w.readBatch s) := by
  have hadds : ∀ e ∈ parseBatchOnce (w.readBatch s), (totalsLedger ext).concerns k e = true →
      e.addsToTotals = false := by
    intro e he hc
    obtain ⟨e', he', rfl⟩ := List.mem_map.mp he
    obtain ⟨i, -, rfl⟩ | rfl := mem_dualWorkers.mp hw
    · exact PgProjection.addsToTotals_eq_false hext (hmay e' he') hk (of_decide_eq_true hc)
    · cases hk
  constructor
  · exact totalsLedger_absorbs.apply_apply hadds _
  · intro hp
    obtain ⟨t, ht⟩ := Option.isSome_iff_exists.mp (hsettled hp)
    refine (totalsLedger ext).apply_eq_self fun e he hc => ?_
    rw [ht]
    show totalsStep ext (some t) e = some t
    obtain h | h := totalsStep_of_adds_nothing ext (hadds e he hc) <;> rw [h]
    rfl

/-- An event that leaves the shares of its position does so. -/
theorem activeSharesStep_of_leaves {r : Option ℚ} (h : e.LeavesShares r) :
    activeSharesStep r e = r := by
  cases e with
  | deposited metadata data =>
    obtain ⟨hzero, hne⟩ := h
    obtain ⟨x, rfl⟩ := Option.ne_none_iff_exists'.mp hne
    rw [activeSharesStep, hzero, add_zero]
    rfl
  | redeemed metadata data =>
    obtain rfl | ⟨hzero, x, rfl, hx⟩ := h
    · rfl
    · rw [activeSharesStep, hzero]
      simp [Option.filter, hx]
  | _ => rfl

/-- Events that leave the shares of active positions, or add nothing to ones no
event of which has been passed, may be applied ahead of time. -/
theorem quiet_sharesMirror {w : PgWorker} (hw : w ∈ config.dualWorkers) {s : Service}
    (hmay : w.MayStandAlone ext s) {k : PositionKey}
    (hk : (sharesMirror ext).legacy.owns w.projection k = true) :
    (sharesMirror ext).Quiet w s k (w.readBatch s) := by
  obtain ⟨i, -, rfl⟩ | rfl := mem_dualWorkers.mp hw
  · cases hk
  obtain hleaves | ⟨hpassed, hadds⟩ := hmay k
  · have hself : (sharesMirror ext).apply k ((sharesMirror ext).legacy.rows s.stores k)
        (PgWorker.readBatch ⟨.vaultHoldersIndexDual true, config.batchSize⟩ s)
          = (sharesMirror ext).legacy.rows s.stores k := by
      refine Ledger.apply_eq_self _ fun e he hc => ?_
      obtain ⟨e', he', rfl⟩ := List.mem_map.mp he
      exact activeSharesStep_of_leaves (hleaves e' he' (of_decide_eq_true hc))
    exact ⟨by rw [hself, hself], fun _ => hself⟩
  · constructor
    · refine activeShares_absorbs.apply_apply (fun e he hc => ?_) _
      obtain ⟨e', he', rfl⟩ := List.mem_map.mp he
      exact hadds e' he' (of_decide_eq_true hc)
    · rintro ⟨e, he, hc⟩
      exact absurd (of_decide_eq_true hc) (hpassed e he)

variable {s₀ s : Service}

/-- **The two copies agree throughout a run in which a KG commit is left
standing alone by batches that show nothing only.** -/
theorem copiesAgree_of_mayStandAlone (hext : ext.Lawful) (hfresh : s₀.Fresh)
    (hrun : ReflTransGen (Service.DualStep ext config.dualWorkers (PgWorker.MayStandAlone ext))
      s₀ s) : s.CopiesAgree ext config.dualWorkers where
  vaults w hw e he k hk hown := by
    have hahead := (Mirror.Ahead.of_fresh hfresh).run (staffed_totalsMirror hext)
      (fun w hw s hmay k hk hsettled => quiet_totalsMirror hext hw hmay hk hsettled) hrun
    rw [← kgVaultTotals_rows hext, ← vaultTotals_rows hext]
    exact hahead.eq_of_passed hw hown ⟨e, he, decide_eq_true hk⟩
  activeVaultPosition w hw e he k hk hown := by
    have hahead := (Mirror.Ahead.of_fresh hfresh).run staffed_sharesMirror
      (fun w hw s hmay k hk _ => quiet_sharesMirror hw hmay hk) hrun
    exact hahead.eq_of_passed hw hown ⟨e, he, decide_eq_true hk⟩

end Market

/-! ## A KG commit left standing alone -/

section OneEvent

variable {ext : Externals} {w : PgWorker} {ws : List PgWorker} {e : StoredEvent}

/-- A worker that reads an event can commit it in the KG database only, and
then, reading it again, in both. -/
theorem exists_kgOnly_advances (mayStandAlone : PgWorker → Service → Prop) (hw : w ∈ ws)
    (hsize : 1 ≤ w.batchSize) (hwants : EventReader.wants w.eventTypeStrs e = true)
    (hpos : 0 < e.sequenceNumber)
    (hok : ∀ pool, ∃ pool',
      w.projection.processParsedBatch ext pool [ParsedEvent.parseOrUnknown e] = .ok pool')
    (hmay : mayStandAlone w ⟨[e], {}, ∅⟩) :
    ∃ s pool, ReflTransGen (Service.DualStep ext ws mayStandAlone) ⟨[e], {}, ∅⟩ s
      ∧ w.HasPassed s e
      ∧ w.projection.processParsedBatch ext {} [ParsedEvent.parseOrUnknown e] = .ok pool
      ∧ w.projection.processParsedBatch ext { kg := pool.kg } [ParsedEvent.parseOrUnknown e]
        = .ok s.stores := by
  obtain ⟨pool, ⟨hne, happly⟩, hprocess⟩ := PgWorker.exists_replays (s := ⟨[e], {}, ∅⟩) rfl hsize
    hwants hpos (hok _)
  obtain ⟨s, hs⟩ := PgWorker.exists_advances (s := ⟨[e], { kg := pool.kg }, ∅⟩) rfl hsize hwants
    hpos (hok _)
  obtain ⟨hstore, -, -, hagain⟩ := hs.singleton rfl hsize
  refine ⟨s, pool, .head (.kgOnly hw hmay ⟨hne, _, happly, rfl⟩) (.single (.advances hw hs)),
    ⟨hstore ▸ List.mem_cons_self, hwants, ?_⟩, hprocess, hagain⟩
  exact hs.done_singleton rfl hsize e (hstore ▸ List.mem_cons_self) hwants

/-- A process with one shard. -/
def soloConfig : ProjectionsConfig := { positionTrackingShards := 1 }

/-- The worker of the totals of its vaults. -/
def soloVaultWorker : PgWorker := ⟨.vaultStateDual 0 1 true, 500⟩

theorem soloVaultWorker_mem : soloVaultWorker ∈ soloConfig.dualWorkers := List.mem_cons_self

/-- A deposit of nothing whose KG commit is left standing alone does not show. -/
theorem copiesAgree_emptyDeposit :
    ∃ s, ReflTransGen (Service.DualStep .exact soloConfig.dualWorkers
        (PgWorker.MayStandAlone .exact)) ⟨[emptyDeposit], {}, ∅⟩ s
      ∧ soloVaultWorker.HasPassed s emptyDeposit
      ∧ s.CopiesAgree .exact soloConfig.dualWorkers := by
  have hfresh : (⟨[emptyDeposit], {}, ∅⟩ : Service).Fresh :=
    Service.fresh_singleton (by decide)
  have hmay : soloVaultWorker.MayStandAlone .exact ⟨[emptyDeposit], {}, ∅⟩ := by
    intro e he
    rw [PgWorker.readBatch_singleton rfl (by decide), if_pos (by decide +kernel)] at he
    rw [List.mem_singleton.mp he]
    decide +kernel
  obtain ⟨s, -, hrun, hpassed, -, -⟩ := exists_kgOnly_advances (PgWorker.MayStandAlone .exact)
    soloVaultWorker_mem (by decide) (by decide) (by decide)
    (fun pool => PgProjection.exists_process_deposited .exact _ _ _ pool) hmay
  exact ⟨s, hrun, hpassed, copiesAgree_of_mayStandAlone Externals.exact_lawful hfresh hrun⟩

/-- **A deposit whose KG commit is left standing alone is counted twice
there.** -/
theorem kgOnly_run_not_copiesAgree :
    ∃ s, ReflTransGen (Service.DualStep .exact soloConfig.dualWorkers fun _ _ => True)
        ⟨[firstDeposit], {}, ∅⟩ s
      ∧ ¬ s.CopiesAgree .exact soloConfig.dualWorkers := by
  obtain ⟨s, pool, hrun, hpassed, hfirst, hagain⟩ := exists_kgOnly_advances (e := firstDeposit)
    (fun _ _ => True) soloVaultWorker_mem (by decide) (by decide) (by decide)
    (fun pool => PgProjection.exists_process_deposited .exact _ _ _ pool) trivial
  refine ⟨s, hrun, fun hagree => ?_⟩
  have hvault := hagree.vaults _ soloVaultWorker_mem _ hpassed (firstVault .exact) rfl rfl
  have hkg : ∀ {pool pool'}, soloVaultWorker.projection.processParsedBatch .exact pool
      [ParsedEvent.parseOrUnknown firstDeposit] = .ok pool' →
      (kgVaultTotals Externals.exact_lawful).rows pool' (firstVault .exact)
        = totalsStep .exact ((kgVaultTotals Externals.exact_lawful).rows pool (firstVault .exact))
          (ParsedEvent.parseOrUnknown firstDeposit) := fun h =>
    ReadModel.rows_process_one h concerns_firstDeposit
  have hlegacy : (vaultTotals Externals.exact_lawful).rows s.stores (firstVault .exact)
      = totalsStep .exact none (ParsedEvent.parseOrUnknown firstDeposit) :=
    ReadModel.rows_process_one hagain concerns_firstDeposit
  rw [← kgVaultTotals_rows Externals.exact_lawful, ← vaultTotals_rows Externals.exact_lawful,
    hkg hagain, hlegacy] at hvault
  -- the KG copy of the second batch starts from the one of the first
  have hstart : (kgVaultTotals Externals.exact_lawful).rows { kg := pool.kg } (firstVault .exact)
      = totalsStep .exact none (ParsedEvent.parseOrUnknown firstDeposit) := hkg hfirst
  rw [hstart] at hvault
  exact totalsStep_firstDeposit_twice _ hvault

end OneEvent
