import IntuitionCore.Projections.HolderStatements
import IntuitionCore.Projections.Resharding

/-!
# Shards and the single worker

The projections of vaults and of positions can be run as any number of workers.
Each of them polls the log by itself and skips the vaults of the others, and
they take turns as they like. Where all have processed the log, the tables are
those that a single worker of each leaves: every row has one owner, and what
its owner makes of it is what the log says.
-/

open Relation

/-- A process that runs the projections of vaults and of positions, and nothing
else, in a number of shards. -/
def shardedConfig (n batchSize : ℕ) : ProjectionsConfig where
  batchSize := batchSize
  positionTrackingShards := n
  enabledProjections := ["vault_state", "position_tracking"]

/-- No vault has holders counted. -/
def NoHolders (t : Table VaultKey VaultRow) : Prop :=
  ∀ k row, t.lookup k = some row → row.holderCount = 0

variable {ext : Externals} {n batchSize : ℕ} {kgPool : Bool} {s₀ s s' : Service}

theorem isProjectionEnabled_shardedConfig (name : String) :
    (shardedConfig n batchSize).isProjectionEnabled name = true
      ↔ name = "vault_state" ∨ name = "position_tracking" := by
  show (["vault_state", "position_tracking"].any fun n => n == name) = true ↔ _
  simp only [List.any_cons, List.any_nil, Bool.or_false, Bool.or_eq_true, beq_iff_eq]
  exact or_congr eq_comm eq_comm

/-! ## Nobody counts holders -/

/-- What happens to vaults counts no holders. -/
theorem noHolders_record {t : Table VaultKey VaultRow} (h : NoHolders t) (own : VaultKey → Bool)
    (e : ParsedEvent) : NoHolders (t.record (vaultLedger ext) own e) := by
  intro k row hrow
  rw [Table.lookup_record] at hrow
  split at hrow
  · have hcount : ((vaultLedger ext).step (t.lookup k) e).map VaultRow.holderCount
        = some row.holderCount := congrArg (Option.map VaultRow.holderCount) hrow
    obtain hstep | ⟨-, hstep⟩ := HolderCounts.holderCount_step ext (t.lookup k) e
    · rw [hstep] at hcount
      obtain ⟨r, hr, heq⟩ := Option.map_eq_some_iff.mp hcount
      rw [← heq]
      exact h k r hr
    · rw [hstep] at hcount
      exact (Option.some.inj hcount).symm
  · exact h k row hrow

theorem noHolders_vaultState (hext : ext.Lawful) {i : ℕ} {events : List ParsedEvent} {tx tx' : Db}
    (htx : NoHolders tx.vault)
    (h : VaultStateProjection.processParsedBatch ext i n tx events = .ok tx') :
    NoHolders tx'.vault := by
  unfold VaultStateProjection.processParsedBatch at h
  induction events generalizing tx with
  | nil =>
    cases h
    exact htx
  | cons e events ih =>
    obtain ⟨tx₁, htx₁, h⟩ := Result.bind_eq_ok.mp h
    refine ih ?_ h
    rw [VaultStateProjection.vault_processEvent hext htx₁]
    exact noHolders_record htx _ e

/-- **A step of the sharded process counts no holders.** -/
theorem Service.Step.noHolders (hext : ext.Lawful)
    (h : Service.Step ext (shardedConfig n batchSize) kgPool s s')
    (hs : NoHolders s.stores.db.vault) : NoHolders s'.stores.db.vault := by
  cases h with
  | grows h =>
    obtain ⟨es, -, -, rfl⟩ := h
    exact hs
  | advances p hp h =>
    have hname := (isProjectionEnabled_shardedConfig p.name).mp
      (ProjectionsConfig.mem_buildPgProjections.mp hp).1
    obtain ⟨-, s₁, hok, rfl⟩ := h
    obtain ⟨pool, hpool, hs₁⟩ := Result.bind_eq_ok.mp hok
    cases hs₁
    -- saving a checkpoint does nothing to the stores
    have hstores : ∀ (w : PgWorker) (s : Service) (batch : List StoredEvent),
        (w.saveCheckpoint s batch).stores = s.stores := by
      intro w s batch
      unfold PgWorker.saveCheckpoint
      split <;> rfl
    rw [hstores]
    cases p with
    | vaultState i m =>
      obtain ⟨db, hdb, hpool⟩ := Result.bind_eq_ok.mp hpool
      cases hpool
      exact noHolders_vaultState hext hs hdb
    | positionTracking i m =>
      cases hpool
      have hvault : ∀ events, (PositionTrackingProjection.processParsedBatch ext i m s.stores.db
          events).vault = s.stores.db.vault := fun events =>
        Result.foldl_keeps (g := Db.vault) PositionTrackingProjection.vault_processEvent events _
      exact (hvault _).symm ▸ hs
    | _ => simp [PgProjection.name] at hname

/-! ## What the shards leave -/

theorem noHolders_of_run (hext : ext.Lawful) (hfresh : s₀.Fresh)
    (hrun : ReflTransGen (Service.Step ext (shardedConfig n batchSize) kgPool) s₀ s) :
    NoHolders s.stores.db.vault := by
  refine Run.invariant (P := fun s : Service => NoHolders s.stores.db.vault)
    (fun s s' hs hstep => hstep.noHolders hext hs) hrun ?_
  rw [hfresh.stores_eq]
  intro k row hrow
  cases hrow

/-- **A vault's row in the end is what the log says of it**, whatever the
number of shards. -/
theorem vault_lookup_of_sharded (hext : ext.Lawful) (hn : 1 ≤ n) (hfresh : s₀.Fresh)
    (hrun : ReflTransGen (Service.Step ext (shardedConfig n batchSize) kgPool) s₀ s)
    (hdone : s.Processed (shardedConfig n batchSize) kgPool) (k : VaultKey) :
    s.stores.db.vault.lookup k
      = (vaultLedger ext).row (s.eventStore.map StoredEvent.counted) k := by
  have hsolo : (vaultRows hext).Solo ((shardedConfig n batchSize).buildPgProjections kgPool) :=
    solo_vaultTotals hext fun h => by
      simpa using (isProjectionEnabled_shardedConfig _).mp h.2
  have howns : ∃ p ∈ (shardedConfig n batchSize).buildPgProjections kgPool,
      (vaultRows hext).owns p k = true := by
    refine (exists_owns_vaultTotals hext hn k).mpr ?_
    unfold ProjectionsConfig.writesVaults
    rw [(isProjectionEnabled_shardedConfig _).mpr (.inl rfl), Bool.true_or]
  have hrow : vaultRow s.stores.db.vault k = _ :=
    (ReadModel.rows_of_processed hsolo hfresh hrun hdone k).trans (if_pos howns)
  -- the row is the one of the read model, with no holders counted
  refine Eq.trans ?_ hrow
  unfold vaultRow
  cases hlook : s.stores.db.vault.lookup k with
  | none => rfl
  | some row =>
    rw [Option.map_some, VaultRow.withoutHolders,
      ← noHolders_of_run hext hfresh hrun k row hlook]

/-- **Sharding refines the single worker**: where the shards have processed an
event store, in batches of any size and any interleaving, the tables of vaults
and of positions are those that one worker of each projection leaves. Decimals
that are the same number are of the same shard. -/
theorem sharding_refines_single (hext : ext.Lawful) {n : ℕ} (hn : 1 ≤ n)
    {batchSize batchSize' : ℕ} {kgPool kgPool' : Bool} {s₀ s s₀' s' : Service}
    (hfresh : s₀.Fresh)
    (hrun : ReflTransGen (Service.Step ext (shardedConfig n batchSize) kgPool) s₀ s)
    (hdone : s.Processed (shardedConfig n batchSize) kgPool) (hfresh' : s₀'.Fresh)
    (hrun' : ReflTransGen (Service.Step ext (shardedConfig 1 batchSize') kgPool') s₀' s')
    (hdone' : s'.Processed (shardedConfig 1 batchSize') kgPool')
    (hlog : s.eventStore = s'.eventStore) :
    s.stores.db.vault = s'.stores.db.vault ∧ s.stores.db.position = s'.stores.db.position
      ∧ ∀ a b : BigDecimal, a.val = b.val →
        Shard.canonicalShardKey ext a = Shard.canonicalShardKey ext b := by
  refine ⟨Finmap.ext_lookup fun k => ?_, Finmap.ext_lookup fun k => ?_, fun a b h => ?_⟩
  · rw [vault_lookup_of_sharded hext hn hfresh hrun hdone,
      vault_lookup_of_sharded hext le_rfl hfresh' hrun' hdone', hlog]
  · have henabled : ∀ {n batchSize},
        (shardedConfig n batchSize).isProjectionEnabled "position_tracking" = true :=
      (isProjectionEnabled_shardedConfig _).mpr (.inr rfl)
    rw [position_lookup_of_processed hext hn henabled hfresh hrun hdone,
      position_lookup_of_processed hext le_rfl henabled hfresh' hrun' hdone', hlog]
  · unfold Shard.canonicalShardKey
    rw [BigDecimal.withScale0_eq_of_val_eq h]

/-- Two shards leave what one worker leaves, of an event store with one
deposit. -/
theorem sharding_refines_single_firstDeposit : ∃ s s' : Service,
    ReflTransGen (Service.Step .exact (shardedConfig 2 500) false)
      { eventStore := [firstDeposit] } s
      ∧ ReflTransGen (Service.Step .exact (shardedConfig 1 500) false)
        { eventStore := [firstDeposit] } s'
      ∧ s.stores.db.vault = s'.stores.db.vault ∧ s.stores.db.position = s'.stores.db.position := by
  have hfresh : ({ eventStore := [firstDeposit] } : Service).Fresh :=
    Service.fresh_singleton (by decide)
  obtain ⟨s, hrun, hstore, hdone, -⟩ := exists_run_processed (shardedConfig 2 500) false
    (J := fun _ => True) (by decide) (by decide) exists_process_firstDeposit trivial
    fun _ _ _ _ _ _ _ => trivial
  obtain ⟨s', hrun', hstore', hdone', -⟩ := exists_run_processed (shardedConfig 1 500) false
    (J := fun _ => True) (by decide) (by decide) exists_process_firstDeposit trivial
    fun _ _ _ _ _ _ _ => trivial
  have hrefines := sharding_refines_single Externals.exact_lawful (by decide) hfresh hrun hdone
    hfresh hrun' hdone' (hstore.trans hstore'.symm)
  exact ⟨s, s', hrun, hrun', hrefines.1, hrefines.2.1⟩
