import IntuitionCore.Projections.Accumulation

/-!
# Changing the number of shards

A process may be stopped and started with another number of shards. The new
workers start on the checkpoints that are there, and a checkpoint is kept under
the number of its shard, not under how many shards there were. The worker that
is given a vault may therefore start before what was processed of it, and add
it again, or after what was not, and leave it out.

The totals of vaults and the positions survive exactly those changes at which,
for every event of a vault, the worker that had the vault and the one that gets
it agree on whether the event has been processed.
-/

open Relation

/-! ## Deployments -/

/-- A configuration with another number of shards. -/
def ProjectionsConfig.withShards (config : ProjectionsConfig) (n : ℕ) : ProjectionsConfig :=
  { config with positionTrackingShards := n }

/-- Whether a projection does not skip an event. -/
def PgProjection.takes (ext : Externals) (p : PgProjection) (e : ParsedEvent) : Bool :=
  match p with
  | .vaultState i n | .positionTracking i n | .vaultStateDual i n _ => e.isOfShard ext i n
  | _ => true

/-- The checkpoint that a projection's worker starts from. -/
def Service.checkpointOf (s : Service) (p : PgProjection) : ℕ :=
  s.checkpoints.getCheckpoint p.checkpointName "pg"

/-- **Two numbers of shards are aligned**: of every event, the worker that takes
it with the one and the worker of the same projection that takes it with the
other say the same, that it has been processed or that it has not. -/
def Service.Aligned (ext : Externals) (config : ProjectionsConfig) (kgPool : Bool) (n n' : ℕ)
    (s : Service) : Prop :=
  ∀ p ∈ (config.withShards n).buildPgProjections kgPool,
  ∀ q ∈ (config.withShards n').buildPgProjections kgPool, p.name = q.name →
  ∀ e ∈ s.eventStore, EventReader.wants (p.eventTypes.map EventType.asStr) e = true →
    p.takes ext (ParsedEvent.parseOrUnknown e) = true →
    q.takes ext (ParsedEvent.parseOrUnknown e) = true →
    (e.sequenceNumber ≤ s.checkpointOf p ↔ e.sequenceNumber ≤ s.checkpointOf q)

/-- A service, and the number of shards of the process that works on it. -/
structure Deployment where
  shards : ℕ
  service : Service

/-- A process works on a service, or is stopped between two batches and started
with another number of shards. What change of the number there may be is a
parameter. -/
inductive Deployment.Step (ext : Externals) (config : ProjectionsConfig) (kgPool : Bool)
    (mayReshard : ℕ → ℕ → Service → Prop) : Deployment → Deployment → Prop
  /-- The event store grows, or a worker processes a batch. -/
  | runs {n : ℕ} {s s' : Service} (h : Service.Step ext (config.withShards n) kgPool s s') :
      Step ext config kgPool mayReshard ⟨n, s⟩ ⟨n, s'⟩
  /-- The process is started with another number of shards. -/
  | restarts {n n' : ℕ} {s : Service} (hn' : 1 ≤ n') (h : mayReshard n n' s) :
      Step ext config kgPool mayReshard ⟨n, s⟩ ⟨n', s⟩

/-- The totals of vaults and the positions are what the canonical events add up
to, each of them counted once; tables no projection writes are untouched. -/
structure Service.AddedOnce (ext : Externals) (config : ProjectionsConfig) (s : Service) :
    Prop where
  /-- The columns `total_deposits` and `total_redemptions` of `vault`. -/
  vault : ∀ k, (s.stores.db.vault.lookup k).map VaultRow.totals
    = if config.writesVaults then (totalsLedger ext).row (s.eventStore.map StoredEvent.counted) k
      else none
  /-- The rows of `position`. -/
  position : ∀ k, s.stores.db.position.lookup k
    = if config.isProjectionEnabled "position_tracking" then
        (positionLedger ext).row (s.eventStore.map StoredEvent.counted) k
      else none

/-! ## One writer of each position -/

section OneWriter

variable {ext : Externals} {config : ProjectionsConfig} {kgPool : Bool}

open ProjectionsConfig (mem_buildPgProjections)

/-- The positions have one writer. -/
theorem solo_positionRows (hext : ext.Lawful) :
    (positionRows hext).Solo (config.buildPgProjections kgPool) := by
  intro k p hp q hq hpk hqk
  obtain ⟨-, hpf⟩ := mem_buildPgProjections.mp hp
  obtain ⟨-, hqf⟩ := mem_buildPgProjections.mp hq
  have hpname := name_of_ownsPositionRow hpk
  have hqname := name_of_ownsPositionRow hqk
  have hindex : p.index = q.index :=
    ((ownsPositionRow_iff hpf hpname).mp hpk).trans ((ownsPositionRow_iff hqf hqname).mp hqk).symm
  exact PgProjection.eq_of_name_eq hpf hqf (hpname.trans hqname.symm) hindex

/-- Some worker maintains a position exactly if the projection that writes them
is run. -/
theorem exists_owns_positionRows (hext : ext.Lawful) (hshards : 1 ≤ config.positionTrackingShards)
    (k : PositionKey) :
    (∃ p ∈ config.buildPgProjections kgPool, (positionRows hext).owns p k = true)
      ↔ config.isProjectionEnabled "position_tracking" = true := by
  constructor
  · rintro ⟨p, hp, hpk⟩
    exact name_of_ownsPositionRow hpk ▸ (mem_buildPgProjections.mp hp).1
  · intro h
    have hfits : (PgProjection.positionTracking
        (Shard.shardOfVault ext config.positionTrackingShards k.termId k.curveId) _).Fits
        config.positionTrackingShards kgPool := ⟨Shard.shardOfVault_lt hshards _ _, rfl⟩
    refine ⟨.positionTracking _ _, mem_buildPgProjections.mpr ⟨h, hfits⟩, ?_⟩
    exact (ownsPositionRow_iff hfits rfl).mpr rfl

/-- The rows of positions where the event store has been processed. -/
theorem position_lookup_of_processed {s₀ s : Service} (hext : ext.Lawful)
    (hshards : 1 ≤ config.positionTrackingShards)
    (hposition : config.isProjectionEnabled "position_tracking" = true) (hfresh : s₀.Fresh)
    (hrun : ReflTransGen (Service.Step ext config kgPool) s₀ s)
    (hdone : s.Processed config kgPool) (k : PositionKey) :
    s.stores.db.position.lookup k
      = (positionLedger ext).row (s.eventStore.map StoredEvent.counted) k :=
  (ReadModel.rows_of_processed (solo_positionRows hext) hfresh hrun hdone k).trans
    (if_pos ((exists_owns_positionRows hext hshards k).mpr hposition))

end OneWriter

/-! ## Runs -/

section Runs

variable {ext : Externals} {config : ProjectionsConfig} {kgPool : Bool} {κ ρ : Type}
  [DecidableEq κ] {m : ReadModel ext κ ρ} {n n' : ℕ} {s : Service} {d₀ d : Deployment}

/-- A read model whose rows are given from worker to worker by changes of the
number of shards: each has one writer, always a shard of the same projection,
and one that takes what concerns the row. -/
structure ReadModel.Sharded (m : ReadModel ext κ ρ) (config : ProjectionsConfig) (kgPool : Bool) :
    Prop where
  /-- Every row has one writer. -/
  solo : ∀ n, m.Solo ((config.withShards n).buildPgProjections kgPool)
  /-- Whether a row has a writer does not depend on the number of shards. -/
  exists_owns_iff : ∀ {n n'}, 1 ≤ n → 1 ≤ n' → ∀ k,
    ((∃ p ∈ (config.withShards n).buildPgProjections kgPool, m.owns p k = true)
      ↔ ∃ p ∈ (config.withShards n').buildPgProjections kgPool, m.owns p k = true)
  /-- Its writers are shards of one projection. -/
  name_eq : ∀ {p q k}, config.isProjectionEnabled p.name = true →
    config.isProjectionEnabled q.name = true → m.owns p k = true → m.owns q k = true →
    p.name = q.name
  /-- A writer does not skip what concerns the row. -/
  takes : ∀ {p k e}, m.owns p k = true → m.ledger.concerns k e = true → p.takes ext e = true

/-- An event that counts for a row counts as what it is read as. -/
theorem ReadModel.counted_eq {p : PgProjection} {k : κ} {e : StoredEvent}
    (hp : m.owns p k = true) (hc : m.history.concerns k e = true) :
    e.counted = ParsedEvent.parseOrUnknown e := by
  have hwants := ReadModel.wants_of_owns (w := ⟨p, 0⟩) hp hc
  unfold EventReader.wants at hwants
  exact if_pos (Bool.and_elim_right hwants)

/-- **An aligned change of the number of shards is a change of owners at which
the marks agree.** -/
theorem ReadModel.Sharded.step_of_aligned (hm : m.Sharded config kgPool) (hn : 1 ≤ n)
    (hn' : 1 ≤ n') (h : s.Aligned ext config kgPool n n') :
    Feed.Step StoredEvent.sequenceNumber m.history
      (m.feed ((config.withShards n).buildPgProjections kgPool) s)
      (m.feed ((config.withShards n').buildPgProjections kgPool) s) := by
  refine .reassign (m.owner ((config.withShards n').buildPgProjections kgPool)) fun k => ?_
  rw [ReadModel.processed_feed]
  by_cases hown : ∃ p ∈ (config.withShards n).buildPgProjections kgPool, m.owns p k = true
  · obtain ⟨p, hp, hpk⟩ := hown
    obtain ⟨q, hq, hqk⟩ := (hm.exists_owns_iff hn hn' k).mp ⟨p, hp, hpk⟩
    rw [(ReadModel.owner_eq_some_iff namesDistinct_buildPgProjections (hm.solo n) hp).mpr hpk,
      (ReadModel.owner_eq_some_iff namesDistinct_buildPgProjections (hm.solo n') hq).mpr hqk]
    have hname := hm.name_eq (ProjectionsConfig.mem_buildPgProjections.mp hp).1
      (ProjectionsConfig.mem_buildPgProjections.mp hq).1 hpk hqk
    unfold Feed.upToOwner Feed.upTo
    rw [List.filter_filter, List.filter_filter]
    refine List.filter_congr fun e he => ?_
    by_cases hc : m.history.concerns k e = true
    · have hcounted := ReadModel.counted_eq hpk hc
      have htakes : ∀ {r}, m.owns r k = true → r.takes ext (ParsedEvent.parseOrUnknown e) = true :=
        fun hr => hcounted ▸ hm.takes hr hc
      have hsame := h p hp q hq hname e he (ReadModel.wants_of_owns (w := ⟨p, 0⟩) hpk hc)
        (htakes hpk) (htakes hqk)
      rw [hc, Bool.true_and, Bool.true_and]
      exact decide_eq_decide.mpr hsame.symm
    · rw [Bool.not_eq_true] at hc
      rw [hc, Bool.false_and, Bool.false_and]
  · have hown' := mt (hm.exists_owns_iff hn hn' k).mpr hown
    rw [ReadModel.owner_eq_none (by simpa using hown'),
      ReadModel.owner_eq_none (by simpa using hown)]

/-- **A step of a deployment keeps the rows of a read model exact**, if the
numbers of shards it changes between are aligned. -/
theorem Deployment.Step.exact (hm : m.Sharded config kgPool)
    (h : Deployment.Step ext config kgPool (Service.Aligned ext config kgPool) d₀ d)
    (hd : 1 ≤ d₀.shards ∧
      (m.feed ((config.withShards d₀.shards).buildPgProjections kgPool) d₀.service).Exact
        StoredEvent.sequenceNumber m.history) :
    1 ≤ d.shards ∧
      (m.feed ((config.withShards d.shards).buildPgProjections kgPool) d.service).Exact
        StoredEvent.sequenceNumber m.history := by
  cases h with
  | runs h => exact ⟨hd.1, h.exact (hm.solo _) hd.2⟩
  | restarts hn' h => exact ⟨hn', hd.2.step (hm.step_of_aligned hd.1 hn' h)⟩

/-- **Where the last process has processed the event store, a read model is what
its ledger says of all events**, or untouched. -/
theorem ReadModel.Sharded.rows_of_processed (hm : m.Sharded config kgPool) (hd₀ : 1 ≤ d₀.shards)
    (hfresh : d₀.service.Fresh)
    (hrun : ReflTransGen
      (Deployment.Step ext config kgPool (Service.Aligned ext config kgPool)) d₀ d)
    (hdone : d.service.Processed (config.withShards d.shards) kgPool) (k : κ) :
    1 ≤ d.shards ∧ m.rows d.service.stores k
      = if ∃ p ∈ (config.withShards d.shards).buildPgProjections kgPool, m.owns p k = true then
          m.ledger.row (d.service.eventStore.map StoredEvent.counted) k
        else m.ledger.init := by
  have hexact := Run.invariant
    (P := fun d => 1 ≤ d.shards ∧
      (m.feed ((config.withShards d.shards).buildPgProjections kgPool) d.service).Exact
        StoredEvent.sequenceNumber m.history)
    (fun _ _ hx hxy => Deployment.Step.exact hm hxy hx) hrun
    ⟨hd₀, ReadModel.exact_of_fresh hfresh⟩
  refine ⟨hexact.1, ?_⟩
  rw [ReadModel.rows_of_done namesDistinct_buildPgProjections (hm.solo _) hexact.2
    (fun p hp => ⟨_, hdone p hp⟩), ReadModel.history_row]

theorem exists_owns_vaultTotals_withShards (hext : ext.Lawful) (hn : 1 ≤ n) (k : VaultKey) :
    (∃ p ∈ (config.withShards n).buildPgProjections kgPool, (vaultTotals hext).owns p k = true)
      ↔ config.writesVaults = true :=
  exists_owns_vaultTotals hext (show 1 ≤ (config.withShards n).positionTrackingShards from hn) k

theorem exists_owns_positionRows_withShards (hext : ext.Lawful) (hn : 1 ≤ n) (k : PositionKey) :
    (∃ p ∈ (config.withShards n).buildPgProjections kgPool, (positionRows hext).owns p k = true)
      ↔ config.isProjectionEnabled "position_tracking" = true :=
  exists_owns_positionRows hext (show 1 ≤ (config.withShards n).positionTrackingShards from hn) k

theorem sharded_vaultTotals (hext : ext.Lawful)
    (hsingle : ¬ (config.isProjectionEnabled "vault_state" = true
      ∧ config.isProjectionEnabled "vault_state:dual" = true)) :
    (vaultTotals hext).Sharded config kgPool where
  solo n := by
    have hsingle' : ¬ ((config.withShards n).isProjectionEnabled "vault_state" = true
        ∧ (config.withShards n).isProjectionEnabled "vault_state:dual" = true) := hsingle
    exact solo_vaultTotals hext hsingle'
  exists_owns_iff hn hn' k :=
    (exists_owns_vaultTotals_withShards hext hn k).trans
      (exists_owns_vaultTotals_withShards hext hn' k).symm
  name_eq hp hq hpk hqk := name_eq_of_ownsVaultRow hsingle hp hq hpk hqk
  takes {p k e} hp hk := by
    have hvault : vaultOf ext e = some k := of_decide_eq_true hk
    cases p with
    | vaultState | vaultStateDual =>
      show e.isOfShard ext _ _ = true
      rw [ParsedEvent.isOfShard_eq hext, hvault]
      exact hp
    | _ => cases hp

theorem sharded_positionRows (hext : ext.Lawful) : (positionRows hext).Sharded config kgPool where
  solo n := solo_positionRows hext
  exists_owns_iff hn hn' k :=
    (exists_owns_positionRows_withShards hext hn k).trans
      (exists_owns_positionRows_withShards hext hn' k).symm
  name_eq _ _ hp hq := (name_of_ownsPositionRow hp).trans (name_of_ownsPositionRow hq).symm
  takes {p k e} hp hk := by
    have hkey : (positionLedger ext).key e = some k := of_decide_eq_true hk
    cases p with
    | positionTracking =>
      show e.isOfShard ext _ _ = true
      rw [ParsedEvent.isOfShard_eq hext]
      cases e with
      | deposited | redeemed => cases hkey; exact hp
      | _ => cases hkey
    | _ => cases hp

/-- **Changing the number of shards is safe between aligned numbers**: once the
last process has processed the event store, every event is counted once. -/
theorem addedOnce_of_aligned (hext : ext.Lawful)
    (hsingle : ¬ (config.isProjectionEnabled "vault_state" = true
      ∧ config.isProjectionEnabled "vault_state:dual" = true))
    (hd₀ : 1 ≤ d₀.shards) (hfresh : d₀.service.Fresh)
    (hrun : ReflTransGen
      (Deployment.Step ext config kgPool (Service.Aligned ext config kgPool)) d₀ d)
    (hdone : d.service.Processed (config.withShards d.shards) kgPool) :
    d.service.AddedOnce ext config where
  vault k := by
    obtain ⟨hd, hrows⟩ :=
      (sharded_vaultTotals hext hsingle).rows_of_processed hd₀ hfresh hrun hdone k
    rw [← vaultTotals_rows hext]
    exact hrows.trans (if_congr (exists_owns_vaultTotals_withShards hext hd k) rfl rfl)
  position k := by
    obtain ⟨hd, hrows⟩ := (sharded_positionRows hext).rows_of_processed hd₀ hfresh hrun hdone k
    exact hrows.trans (if_congr (exists_owns_positionRows_withShards hext hd k) rfl rfl)

end Runs

/-! ## Fewer shards and more -/

section FewerShards

variable {ext : Externals} {config : ProjectionsConfig} {kgPool : Bool} {n n' : ℕ} {s : Service}
  {d : Deployment}

/-- With more shards, some worker keeps the checkpoint of any worker there is
with fewer, if the fewer are several. -/
theorem exists_same_checkpoint (hn' : 2 ≤ n') (hle : n' ≤ n) {q : PgProjection}
    (hq : q ∈ (config.withShards n').buildPgProjections kgPool) :
    ∃ p ∈ (config.withShards n).buildPgProjections kgPool,
      p.checkpointName = q.checkpointName ∧ p.eventTypes = q.eventTypes := by
  obtain ⟨hqe, hqf⟩ := ProjectionsConfig.mem_buildPgProjections.mp hq
  have hmany : n' > 1 ∧ n > 1 := ⟨hn', lt_of_lt_of_le hn' hle⟩
  cases q with
  | vaultState i m =>
    obtain ⟨hi, rfl : m = n'⟩ := hqf
    refine ⟨.vaultState i n, ProjectionsConfig.mem_buildPgProjections.mpr
      ⟨hqe, lt_of_lt_of_le hi hle, rfl⟩, ?_, rfl⟩
    simp [PgProjection.checkpointName, PgProjection.shardId, PgProjection.name, hmany]
  | positionTracking i m =>
    obtain ⟨hi, rfl : m = n'⟩ := hqf
    refine ⟨.positionTracking i n, ProjectionsConfig.mem_buildPgProjections.mpr
      ⟨hqe, lt_of_lt_of_le hi hle, rfl⟩, ?_, rfl⟩
    simp [PgProjection.checkpointName, PgProjection.shardId, PgProjection.name, hmany]
  | vaultStateDual i m kg =>
    obtain ⟨hi, rfl : m = n', hkg⟩ := hqf
    refine ⟨.vaultStateDual i n kg, ProjectionsConfig.mem_buildPgProjections.mpr
      ⟨hqe, lt_of_lt_of_le hi hle, rfl, hkg⟩, ?_, rfl⟩
    simp [PgProjection.checkpointName, PgProjection.shardId, PgProjection.name, hmany]
  | _ => exact ⟨_, ProjectionsConfig.mem_buildPgProjections.mpr ⟨hqe, hqf⟩, rfl, rfl⟩

/-- Where several shards have processed the event store, so have fewer of
them, if they are still several. -/
theorem processed_of_fewer (hn' : 2 ≤ n') (hle : n' ≤ n)
    (h : s.Processed (config.withShards n) kgPool) :
    s.Processed (config.withShards n') kgPool := by
  intro q hq e he hwants
  obtain ⟨p, hp, hname, htypes⟩ := exists_same_checkpoint hn' hle hq
  have hle := h p hp e he (by
    unfold PgWorker.eventTypeStrs at hwants ⊢
    rw [htypes]
    exact hwants)
  unfold PgWorker.checkpoint at hle ⊢
  rw [hname] at hle
  exact hle

/-- **Fewer shards are aligned with more where the event store has been
processed**, if they are still several. -/
theorem aligned_of_fewer (hn' : 2 ≤ n') (hle : n' ≤ n)
    (h : s.Processed (config.withShards n) kgPool) : s.Aligned ext config kgPool n n' := by
  intro p hp q hq hname e he hwants _ _
  have hwants' : EventReader.wants (q.eventTypes.map EventType.asStr) e = true := by
    have htypes : p.eventTypes = q.eventTypes := by
      cases p <;> cases q <;> first
        | rfl
        | exact absurd hname (by simp [PgProjection.name])
    rw [← htypes]
    exact hwants
  exact iff_of_true (h p hp e he hwants) (processed_of_fewer hn' hle h q hq e he hwants')

/-- A process of `vault_state` only. -/
def vaultConfig : ProjectionsConfig := { enabledProjections := ["vault_state"] }

theorem exists_process_firstDeposit (p : PgProjection) (pool : Stores) :
    ∃ pool', p.processParsedBatch ext pool [ParsedEvent.parseOrUnknown firstDeposit] = .ok pool' :=
  PgProjection.exists_process_deposited ext _ _ p pool

/-- A service whose event store has one deposit. -/
def oneDeposit : Service := { eventStore := [firstDeposit] }

theorem fresh_oneDeposit : oneDeposit.Fresh := Service.fresh_singleton (by decide)

/-- From three shards to two, a deposit that has been processed is counted once. -/
theorem addedOnce_three_to_two :
    ∃ d, ReflTransGen (Deployment.Step .exact vaultConfig false
        (Service.Aligned .exact vaultConfig false)) ⟨3, oneDeposit⟩ d
      ∧ d.shards = 2 ∧ d.service.eventStore = [firstDeposit]
      ∧ d.service.AddedOnce .exact vaultConfig := by
  obtain ⟨s, hrun, hstore, hdone, -⟩ :
      ∃ s, ReflTransGen (Service.Step .exact (vaultConfig.withShards 3) false) oneDeposit s
        ∧ s.eventStore = [firstDeposit] ∧ s.Processed (vaultConfig.withShards 3) false ∧ True :=
    exists_run_processed _ _ (by decide) (by decide) exists_process_firstDeposit trivial
      fun _ _ _ _ _ _ _ => trivial
  have hdone' : s.Processed (vaultConfig.withShards 2) false :=
    processed_of_fewer (by decide) (by decide) hdone
  have hrun' : ReflTransGen (Deployment.Step .exact vaultConfig false
      (Service.Aligned .exact vaultConfig false)) ⟨3, oneDeposit⟩ ⟨2, s⟩ :=
    (hrun.lift (Deployment.mk 3) fun _ _ => .runs).tail
      (.restarts (by decide) (aligned_of_fewer (by decide) (by decide) hdone))
  have hshards : 1 ≤ (⟨3, oneDeposit⟩ : Deployment).shards := by decide
  exact ⟨⟨2, s⟩, hrun', rfl, hstore,
    addedOnce_of_aligned Externals.exact_lawful (by decide) hshards fresh_oneDeposit hrun' hdone'⟩

/-- From one shard to two, the only shard processes the deposit, and then each of
the two does: they have no checkpoints. -/
theorem exists_run_one_to_two :
    ∃ s₁ s₂ s₃ : Service,
      ReflTransGen (Deployment.Step .exact vaultConfig false fun _ _ _ => True)
          ⟨1, oneDeposit⟩ ⟨2, s₃⟩
        ∧ s₃.eventStore = [firstDeposit] ∧ s₃.Processed (vaultConfig.withShards 2) false
        ∧ (PgProjection.vaultState 0 1).processParsedBatch .exact {}
          [ParsedEvent.parseOrUnknown firstDeposit] = .ok s₁.stores
        ∧ (PgProjection.vaultState 0 2).processParsedBatch .exact s₁.stores
          [ParsedEvent.parseOrUnknown firstDeposit] = .ok s₂.stores
        ∧ (PgProjection.vaultState 1 2).processParsedBatch .exact s₂.stores
          [ParsedEvent.parseOrUnknown firstDeposit] = .ok s₃.stores := by
  obtain ⟨s₁, h₁⟩ := PgWorker.exists_advances (w := ⟨.vaultState 0 1, 500⟩) (s := oneDeposit)
    rfl (by decide) (by decide) (by decide) (exists_process_firstDeposit _ {})
  obtain ⟨hstore₁, -, hckpt₁, hok₁⟩ := h₁.singleton rfl (by decide)
  have hlt₁ : (⟨.vaultState 0 2, 500⟩ : PgWorker).checkpoint s₁ < 1 := by
    rw [hckpt₁, if_neg (by decide +kernel)]
    decide
  obtain ⟨s₂, h₂⟩ := PgWorker.exists_advances (w := ⟨.vaultState 0 2, 500⟩) hstore₁
    (by decide) (by decide) hlt₁ (exists_process_firstDeposit _ _)
  obtain ⟨hstore₂, -, hckpt₂, hok₂⟩ := h₂.singleton hstore₁ (by decide)
  have hlt₂ : (⟨.vaultState 1 2, 500⟩ : PgWorker).checkpoint s₂ < 1 := by
    rw [hckpt₂, if_neg (by decide +kernel), hckpt₁, if_neg (by decide +kernel)]
    decide
  obtain ⟨s₃, h₃⟩ := PgWorker.exists_advances (w := ⟨.vaultState 1 2, 500⟩) hstore₂
    (by decide) (by decide) hlt₂ (exists_process_firstDeposit _ _)
  obtain ⟨hstore₃, -, hckpt₃, hok₃⟩ := h₃.singleton hstore₂ (by decide)
  have hrun : ReflTransGen (Deployment.Step .exact vaultConfig false fun _ _ _ => True)
      ⟨1, oneDeposit⟩ ⟨2, s₃⟩ :=
    .tail (.tail (.tail (.single (.runs (.advances (.vaultState 0 1) (by decide) h₁)))
      (.restarts (by decide) trivial))
      (.runs (.advances (.vaultState 0 2) (by decide) h₂)))
      (.runs (.advances (.vaultState 1 2) (by decide) h₃))
  refine ⟨s₁, s₂, s₃, hrun, hstore₃, fun p hp e he _ => ?_, hok₁, hok₂, hok₃⟩
  have hbuild : (vaultConfig.withShards 2).buildPgProjections false
      = [.vaultState 0 2, .vaultState 1 2] := by decide
  rw [hstore₃, List.mem_singleton] at he
  rw [hbuild, List.mem_cons, List.mem_singleton] at hp
  obtain rfl | rfl := hp
  · rw [hckpt₃, if_neg (by decide +kernel), hckpt₂, if_pos rfl, he]
  · rw [hckpt₃, if_pos rfl, he]

/-- Of two shards, exactly one adds the deposit to the row of its vault. -/
theorem vaultTotals_rows_two_shards {pool pool₁ pool₂ : Stores}
    (h₁ : (PgProjection.vaultState 0 2).processParsedBatch .exact pool
      [ParsedEvent.parseOrUnknown firstDeposit] = .ok pool₁)
    (h₂ : (PgProjection.vaultState 1 2).processParsedBatch .exact pool₁
      [ParsedEvent.parseOrUnknown firstDeposit] = .ok pool₂) :
    (vaultTotals Externals.exact_lawful).rows pool₂ (firstVault .exact)
      = totalsStep .exact ((vaultTotals Externals.exact_lawful).rows pool (firstVault .exact))
          (ParsedEvent.parseOrUnknown firstDeposit) := by
  have howns : ∀ i, i < 2 → ((vaultTotals Externals.exact_lawful).owns (.vaultState i 2)
      (firstVault .exact) = true
        ↔ Shard.shardOfVault .exact 2 (firstVault .exact).termId (firstVault .exact).curveId = i) :=
    fun i hi => Shard.ownsVault_iff hi _ _
  have hlt : Shard.shardOfVault .exact 2 (firstVault .exact).termId (firstVault .exact).curveId
      < 2 := Shard.shardOfVault_lt (by decide) _ _
  rw [ReadModel.rows_process_one h₂ concerns_firstDeposit,
    ReadModel.rows_process_one h₁ concerns_firstDeposit]
  obtain h | h : Shard.shardOfVault .exact 2 (firstVault .exact).termId
        (firstVault .exact).curveId = 0
      ∨ Shard.shardOfVault .exact 2 (firstVault .exact).termId (firstVault .exact).curveId = 1 := by
    omega
  · rw [if_pos ((howns 0 (by decide)).mpr h),
      if_neg (mt (howns 1 (by decide)).mp (h ▸ by decide))]
    rfl
  · rw [if_neg (mt (howns 0 (by decide)).mp (h ▸ by decide)),
      if_pos ((howns 1 (by decide)).mpr h)]
    rfl

/-- What the log says of the vault of the deposit. -/
theorem row_firstDeposit :
    (totalsLedger .exact).row ([firstDeposit].map StoredEvent.counted) (firstVault .exact)
      = totalsStep .exact none (ParsedEvent.parseOrUnknown firstDeposit) := by
  have hconcerns : (totalsLedger .exact).concerns (firstVault .exact) firstDeposit.counted = true :=
    concerns_firstDeposit
  unfold Ledger.row
  rw [List.map_singleton, Ledger.apply_cons, if_pos hconcerns, Ledger.apply_nil]
  rfl

/-- **From one shard to two, a deposit that has been processed is counted
twice**: the new workers have no checkpoints. -/
theorem one_to_two_not_addedOnce :
    ∃ d, ReflTransGen (Deployment.Step .exact vaultConfig false fun _ _ _ => True)
        ⟨1, oneDeposit⟩ d
      ∧ d.service.Processed (vaultConfig.withShards d.shards) false
      ∧ ¬ d.service.AddedOnce .exact vaultConfig := by
  obtain ⟨s₁, s₂, s₃, hrun, hstore, hdone, hok₁, hok₂, hok₃⟩ := exists_run_one_to_two
  refine ⟨⟨2, s₃⟩, hrun, hdone, fun honce => ?_⟩
  have hfirst : (vaultTotals Externals.exact_lawful).rows s₁.stores (firstVault .exact)
      = totalsStep .exact none (ParsedEvent.parseOrUnknown firstDeposit) :=
    (ReadModel.rows_process_one hok₁ concerns_firstDeposit).trans (if_pos rfl)
  have htwice := vaultTotals_rows_two_shards hok₂ hok₃
  rw [hfirst] at htwice
  have hvault := honce.vault (firstVault .exact)
  rw [← vaultTotals_rows Externals.exact_lawful, if_pos (by decide)] at hvault
  have hlog : (totalsLedger .exact).row (s₃.eventStore.map StoredEvent.counted)
      (firstVault .exact) = totalsStep .exact none (ParsedEvent.parseOrUnknown firstDeposit) := by
    rw [hstore, row_firstDeposit]
  exact totalsStep_firstDeposit_twice _ (htwice.symm.trans (hvault.trans hlog))

end FewerShards
