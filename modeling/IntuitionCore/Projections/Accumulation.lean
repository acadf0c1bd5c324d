import IntuitionCore.Library.Run
import IntuitionCore.Projections.Positions

/-!
# Every event is accumulated once

A process runs the workers its configuration names, and their batches
interleave in any way. Once all of them have processed the events, the totals
of vaults and the active positions should be what the events add up to, each
of them counted once, or nothing if no projection that runs writes them.

That is so exactly if no table is written by two projections that run: by
`vault_state` and by `vault_state:dual`, or by `vault_holders_index` and by
`vault_holders_index:dual`. Without any list of names, everything runs – and
every event is counted twice.
-/

open Relation

variable {ext : Externals} {config : ProjectionsConfig} {kgPool : Bool}

/-- The workers of a process, without failures: the event store grows, and a
worker applies a batch and saves its checkpoint. -/
inductive Service.Step (ext : Externals) (config : ProjectionsConfig) (kgPool : Bool) :
    Service → Service → Prop
  /-- Events are appended. -/
  | grows {s s' : Service} (h : s.Grows s') : Step ext config kgPool s s'
  /-- A worker processes a batch. -/
  | advances {s s' : Service} (p : PgProjection) (hp : p ∈ config.buildPgProjections kgPool)
      (h : (PgWorker.mk p config.batchSize).Advances ext s s') : Step ext config kgPool s s'

/-- All workers of a process have processed the event store. -/
def Service.Processed (s : Service) (config : ProjectionsConfig) (kgPool : Bool) : Prop :=
  ∀ p ∈ config.buildPgProjections kgPool, (PgWorker.mk p config.batchSize).Done s

namespace ProjectionsConfig

/-- Whether a projection that writes the totals of vaults is run. -/
def writesVaults (config : ProjectionsConfig) : Bool :=
  config.isProjectionEnabled "vault_state" || config.isProjectionEnabled "vault_state:dual"

/-- Whether a projection that writes active positions is run. -/
def writesActivePositions (config : ProjectionsConfig) : Bool :=
  config.isProjectionEnabled "vault_holders_index"
    || config.isProjectionEnabled "vault_holders_index:dual"

/-- No table is written by two projections that are run. -/
def SingleWriters (config : ProjectionsConfig) : Prop :=
  ¬ (config.isProjectionEnabled "vault_state" = true
      ∧ config.isProjectionEnabled "vault_state:dual" = true)
    ∧ ¬ (config.isProjectionEnabled "vault_holders_index" = true
      ∧ config.isProjectionEnabled "vault_holders_index:dual" = true)

end ProjectionsConfig

/-- The totals of a vault are what its canonical events add up to, each of them
counted once, and so are the active positions; tables no projection writes
are untouched. -/
structure Service.AccumulatedOnce (ext : Externals) (config : ProjectionsConfig) (s : Service) :
    Prop where
  /-- The columns `total_deposits` and `total_redemptions` of `vault`. -/
  vault : ∀ k, (s.stores.db.vault.lookup k).map VaultRow.totals
    = if config.writesVaults then (totalsLedger ext).row (s.eventStore.map StoredEvent.counted) k
      else none
  /-- The rows of `active_vault_position`. -/
  activeVaultPosition : ∀ k, s.stores.db.activeVaultPosition.lookup k
    = if config.writesActivePositions then
        (activeLedger ext).row (s.eventStore.map StoredEvent.counted) k
      else none

/-! ## One writer of each table -/

section OneWriter

variable {n : ℕ} {p q : PgProjection}

open ProjectionsConfig (mem_buildPgProjections)

/-- The writers of vaults are the shards of one projection, if only one is
run. -/
theorem name_eq_of_ownsVaultRow
    (h : ¬ (config.isProjectionEnabled "vault_state" = true
      ∧ config.isProjectionEnabled "vault_state:dual" = true))
    (hp : config.isProjectionEnabled p.name = true) (hq : config.isProjectionEnabled q.name = true)
    {k : VaultKey} (hpk : ownsVaultRow ext p k = true) (hqk : ownsVaultRow ext q k = true) :
    p.name = q.name := by
  obtain hp' | hp' := name_of_ownsVaultRow hpk <;> obtain hq' | hq' := name_of_ownsVaultRow hqk <;>
    rw [hp'] at hp ⊢ <;> rw [hq'] at hq ⊢
  · exact absurd ⟨hp, hq⟩ h
  · exact absurd ⟨hq, hp⟩ h

/-- The totals of a vault have one writer, if only one of their projections is
run. -/
theorem solo_vaultTotals (hext : ext.Lawful)
    (h : ¬ (config.isProjectionEnabled "vault_state" = true
      ∧ config.isProjectionEnabled "vault_state:dual" = true)) :
    (vaultTotals hext).Solo (config.buildPgProjections kgPool) := by
  intro k p hp q hq hpk hqk
  obtain ⟨hpe, hpf⟩ := mem_buildPgProjections.mp hp
  obtain ⟨hqe, hqf⟩ := mem_buildPgProjections.mp hq
  have hpname := name_of_ownsVaultRow hpk
  have hqname := name_of_ownsVaultRow hqk
  have hindex : p.index = q.index :=
    ((ownsVaultRow_iff hpf hpname).mp hpk).trans ((ownsVaultRow_iff hqf hqname).mp hqk).symm
  exact PgProjection.eq_of_name_eq hpf hqf (name_eq_of_ownsVaultRow h hpe hqe hpk hqk) hindex

/-- The active positions have one writer, if only one of their projections is
run. -/
theorem solo_activePositions
    (h : ¬ (config.isProjectionEnabled "vault_holders_index" = true
      ∧ config.isProjectionEnabled "vault_holders_index:dual" = true)) :
    (activePositions ext).Solo (config.buildPgProjections kgPool) := by
  intro k p hp q hq hpk hqk
  obtain ⟨hpe, hpf⟩ := mem_buildPgProjections.mp hp
  obtain ⟨hqe, hqf⟩ := mem_buildPgProjections.mp hq
  have hzero : ∀ {r : PgProjection}, ownsActiveRow r k = true → r.index = 0 := by
    intro r hr
    cases r <;> first
      | rfl
      | cases hr
  refine PgProjection.eq_of_name_eq hpf hqf ?_ ((hzero hpk).trans (hzero hqk).symm)
  obtain hp' | hp' := ownsActiveRow_iff.mp hpk <;> obtain hq' | hq' := ownsActiveRow_iff.mp hqk <;>
    rw [hp'] at hpe ⊢ <;> rw [hq'] at hqe ⊢
  · exact absurd ⟨hpe, hqe⟩ h
  · exact absurd ⟨hqe, hpe⟩ h

/-- Some worker maintains the totals of a vault exactly if a projection that
writes them is run. -/
theorem exists_owns_vaultTotals (hext : ext.Lawful) (hshards : 1 ≤ config.positionTrackingShards)
    (k : VaultKey) :
    (∃ p ∈ config.buildPgProjections kgPool, (vaultTotals hext).owns p k = true)
      ↔ config.writesVaults = true := by
  unfold ProjectionsConfig.writesVaults
  rw [Bool.or_eq_true]
  constructor
  · rintro ⟨p, hp, hpk⟩
    have henabled := (mem_buildPgProjections.mp hp).1
    obtain hname | hname := name_of_ownsVaultRow hpk <;> rw [hname] at henabled
    · exact .inl henabled
    · exact .inr henabled
  · -- the worker of the vault's shard
    have hlt : Shard.shardOfVault ext config.positionTrackingShards k.termId k.curveId
        < config.positionTrackingShards := Shard.shardOfVault_lt hshards _ _
    rintro (h | h)
    · have hfits : (PgProjection.vaultState _ _).Fits config.positionTrackingShards kgPool :=
        ⟨hlt, rfl⟩
      refine ⟨.vaultState _ _, mem_buildPgProjections.mpr ⟨h, hfits⟩, ?_⟩
      exact (ownsVaultRow_iff hfits (.inl rfl)).mpr rfl
    · have hfits : (PgProjection.vaultStateDual _ _ _).Fits config.positionTrackingShards kgPool :=
        ⟨hlt, rfl, rfl⟩
      refine ⟨.vaultStateDual _ _ _, mem_buildPgProjections.mpr ⟨h, hfits⟩, ?_⟩
      exact (ownsVaultRow_iff hfits (.inr rfl)).mpr rfl

/-- Some worker maintains the active positions exactly if a projection that
writes them is run. -/
theorem exists_owns_activePositions (k : PositionKey) :
    (∃ p ∈ config.buildPgProjections kgPool, (activePositions ext).owns p k = true)
      ↔ config.writesActivePositions = true := by
  unfold ProjectionsConfig.writesActivePositions
  rw [Bool.or_eq_true]
  constructor
  · rintro ⟨p, hp, hpk⟩
    have henabled := (mem_buildPgProjections.mp hp).1
    obtain hname | hname := ownsActiveRow_iff.mp hpk <;> rw [hname] at henabled
    · exact .inl henabled
    · exact .inr henabled
  · rintro (h | h)
    · exact ⟨.vaultHoldersIndex, mem_buildPgProjections.mpr ⟨h, trivial⟩, rfl⟩
    · exact ⟨.vaultHoldersIndexDual kgPool, mem_buildPgProjections.mpr ⟨h, rfl⟩, rfl⟩

end OneWriter

/-! ## Runs -/

section Runs

variable {κ ρ : Type} [DecidableEq κ] {m : ReadModel ext κ ρ} {s₀ s s' : Service}

theorem namesDistinct_buildPgProjections :
    ReadModel.NamesDistinct (config.buildPgProjections kgPool) :=
  fun _ hp _ hq => ProjectionsConfig.eq_of_checkpointName_eq hp hq

/-- **A step of a process keeps the rows of a read model exact**, if they have
one writer. -/
theorem Service.Step.exact (hsolo : m.Solo (config.buildPgProjections kgPool))
    (h : Service.Step ext config kgPool s s')
    (hs : (m.feed (config.buildPgProjections kgPool) s).Exact StoredEvent.sequenceNumber
      m.history) :
    (m.feed (config.buildPgProjections kgPool) s').Exact StoredEvent.sequenceNumber
      m.history := by
  cases h with
  | grows h => exact hs.step (ReadModel.step_of_grows h)
  | advances p hp h =>
    exact hs.step
      (ReadModel.step_of_advances namesDistinct_buildPgProjections hsolo hp hs.inOrder h)

/-- **Where the event store has been processed, a read model with one writer is
what its ledger says of all events**, or untouched. -/
theorem ReadModel.rows_of_processed (hsolo : m.Solo (config.buildPgProjections kgPool))
    (hfresh : s₀.Fresh) (hrun : ReflTransGen (Service.Step ext config kgPool) s₀ s)
    (hdone : s.Processed config kgPool) (k : κ) :
    m.rows s.stores k
      = if ∃ p ∈ config.buildPgProjections kgPool, m.owns p k = true then
          m.ledger.row (s.eventStore.map StoredEvent.counted) k
        else m.ledger.init := by
  have hexact := Run.invariant
    (P := fun s => (m.feed (config.buildPgProjections kgPool) s).Exact
      StoredEvent.sequenceNumber m.history)
    (fun _ _ hx hxy => Service.Step.exact hsolo hxy hx) hrun (ReadModel.exact_of_fresh hfresh)
  rw [ReadModel.rows_of_done namesDistinct_buildPgProjections hsolo hexact
    (fun p hp => ⟨_, hdone p hp⟩), ReadModel.history_row]

/-- With single writers, every event is accumulated once. -/
theorem Service.accumulatedOnce_of_singleWriters (hext : ext.Lawful)
    (hshards : 1 ≤ config.positionTrackingShards) (hsingle : config.SingleWriters)
    (hfresh : s₀.Fresh) (hrun : ReflTransGen (Service.Step ext config kgPool) s₀ s)
    (hdone : s.Processed config kgPool) : s.AccumulatedOnce ext config where
  vault k := by
    have hrows := ReadModel.rows_of_processed (solo_vaultTotals hext hsingle.1) hfresh hrun hdone k
    rw [← vaultTotals_rows hext]
    exact hrows.trans (if_congr (exists_owns_vaultTotals hext hshards k) rfl rfl)
  activeVaultPosition k :=
    (ReadModel.rows_of_processed (solo_activePositions hsingle.2) hfresh hrun hdone k).trans
      (if_congr (exists_owns_activePositions k) rfl rfl)

end Runs

/-! ## Two writers of a table -/

section TwoWriters

variable {κ ρ : Type} [DecidableEq κ] {m : ReadModel ext κ ρ} {s s' : Service} {e : StoredEvent}
  {w : PgWorker} {p q : PgProjection}

/-- What a worker has added to a sum by processing an event. -/
def share (e : StoredEvent) (a : ℚ) (p : PgProjection) (s : Service) : ℚ :=
  if s.checkpoints.getCheckpoint p.checkpointName "pg" < e.sequenceNumber then 0 else a

variable {k : κ} {μ : ρ → ℚ} {a b : ℚ}

/-- **A sum to which two workers add is at least what both have added.** -/
theorem le_sum_of_advances (hμ : ∀ r, μ (m.ledger.step r (ParsedEvent.parseOrUnknown e)) = μ r + a)
    (ha : 0 ≤ a) (hk : m.ledger.concerns k (ParsedEvent.parseOrUnknown e) = true)
    (hp : m.owns p k = true) (hq : m.owns q k = true)
    (hpq : p.checkpointName ≠ q.checkpointName)
    (hw : w.projection.checkpointName = p.checkpointName → w.projection = p)
    (hw' : w.projection.checkpointName = q.checkpointName → w.projection = q)
    (hstore : s.eventStore = [e]) (hsize : 1 ≤ w.batchSize) (h : w.Advances ext s s')
    (hle : b + (share e a p s + share e a q s) ≤ μ (m.rows s.stores k)) :
    b + (share e a p s' + share e a q s') ≤ μ (m.rows s'.stores k) := by
  obtain ⟨-, hlt, hckpt, hok⟩ := h.singleton hstore hsize
  have hrows := m.rows_process hok k
  have hshare : ∀ r : PgProjection, share e a r s'
      = if r.checkpointName = w.projection.checkpointName then a else share e a r s := by
    intro r
    have hr : s'.checkpoints.getCheckpoint r.checkpointName "pg"
        = if r.checkpointName = w.projection.checkpointName then e.sequenceNumber
          else s.checkpoints.getCheckpoint r.checkpointName "pg" := hckpt ⟨r, 0⟩
    unfold share
    by_cases hname : r.checkpointName = w.projection.checkpointName
    · rw [if_pos hname] at hr ⊢
      simp only [hr, lt_irrefl, if_false]
    · rw [if_neg hname] at hr ⊢
      simp only [hr]
  -- a worker that processes the event had not added its share before
  have hself : ∀ r : PgProjection, r.checkpointName = w.projection.checkpointName →
      share e a r s = 0 := by
    intro r hname
    unfold share
    rw [hname]
    exact if_pos hlt
  have hgain : m.owns w.projection k = true →
      μ (m.rows s'.stores k) = μ (m.rows s.stores k) + a := by
    intro hown
    rw [hrows, if_pos hown, Ledger.apply_cons, if_pos hk]
    exact hμ _
  rw [hshare, hshare]
  -- the worker is one of the two, or neither
  by_cases hwp : p.checkpointName = w.projection.checkpointName
  · have hwq : q.checkpointName ≠ w.projection.checkpointName := fun h => hpq (hwp.trans h.symm)
    rw [if_pos hwp, if_neg hwq, hgain (hw hwp.symm ▸ hp)]
    rw [hself p hwp] at hle
    linarith
  · rw [if_neg hwp]
    by_cases hwq : q.checkpointName = w.projection.checkpointName
    · rw [if_pos hwq, hgain (hw' hwq.symm ▸ hq)]
      rw [hself q hwq] at hle
      linarith
    · rw [if_neg hwq]
      refine hle.trans ?_
      by_cases hown : m.owns w.projection k = true
      · rw [hgain hown]
        linarith
      · rw [hrows, if_neg hown]

variable (config kgPool) in
/-- **Some run processes an event store of one event**, and what every iteration
keeps holds at its end. -/
theorem exists_run_processed {J : Service → Prop} (hsize : 1 ≤ config.batchSize)
    (hpos : 0 < e.sequenceNumber)
    (hok : ∀ (p : PgProjection) (pool : Stores),
      ∃ pool', p.processParsedBatch ext pool [ParsedEvent.parseOrUnknown e] = .ok pool')
    (hstart : J ⟨[e], {}, ∅⟩)
    (hJ : ∀ p ∈ config.buildPgProjections kgPool, ∀ s s', s.eventStore = [e] →
      (PgWorker.mk p config.batchSize).Advances ext s s' → J s → J s') :
    ∃ s, ReflTransGen (Service.Step ext config kgPool) ⟨[e], {}, ∅⟩ s ∧ s.eventStore = [e]
      ∧ s.Processed config kgPool ∧ J s := by
  have key : ∀ l : List PgProjection, (∀ p ∈ l, p ∈ config.buildPgProjections kgPool) →
      ∃ s, ReflTransGen (Service.Step ext config kgPool) ⟨[e], {}, ∅⟩ s
        ∧ s.eventStore = [e] ∧ (∀ p ∈ l, (PgWorker.mk p config.batchSize).Done s) ∧ J s := by
    intro l
    induction l with
    | nil => exact fun _ => ⟨_, .refl, rfl, fun p hp => absurd hp List.not_mem_nil, hstart⟩
    | cons p l ih =>
      intro hl
      obtain ⟨s, hrun, hstore, hdone, hs⟩ := ih fun q hq => hl q (List.mem_cons_of_mem _ hq)
      by_cases hp : (PgWorker.mk p config.batchSize).Done s
      · exact ⟨s, hrun, hstore, List.forall_mem_cons.mpr ⟨hp, hdone⟩, hs⟩
      · -- the worker has the event still to process, and the others keep their checkpoints
        have hmem := hl p List.mem_cons_self
        unfold PgWorker.Done at hp
        push Not at hp
        obtain ⟨f, hf, hwants, hlt⟩ := hp
        obtain rfl : f = e := List.mem_singleton.mp (hstore ▸ hf)
        obtain ⟨s', hadv⟩ := PgWorker.exists_advances hstore hsize hwants hlt (hok p s.stores)
        obtain ⟨hstore', -, hckpt, -⟩ := hadv.singleton hstore hsize
        refine ⟨s', hrun.tail (.advances p hmem hadv), hstore', ?_, hJ p hmem s s' hstore hadv hs⟩
        refine List.forall_mem_cons.mpr ⟨hadv.done_singleton hstore hsize, fun q hq f hf hwf => ?_⟩
        obtain rfl := List.mem_singleton.mp (hstore' ▸ hf)
        rw [hckpt]
        split
        · exact le_rfl
        · exact hdone q hq f (hstore ▸ List.mem_singleton_self f) hwf
  obtain ⟨s, hrun, hstore, hdone, hs⟩ := key _ fun _ hp => hp
  exact ⟨s, hrun, hstore, hdone, hs⟩

/-- **Some run counts an event twice**, if two workers add to the same row: an
event store of this one event is processed, and the row is not what the ledger
says of it. -/
theorem exists_run_counted_twice (hsize : 1 ≤ config.batchSize)
    (hok : ∀ (p : PgProjection) (pool : Stores),
      ∃ pool', p.processParsedBatch ext pool [ParsedEvent.parseOrUnknown e] = .ok pool')
    (hμ : ∀ r, μ (m.ledger.step r (ParsedEvent.parseOrUnknown e)) = μ r + a) (ha : 0 < a)
    (hk : m.ledger.concerns k (ParsedEvent.parseOrUnknown e) = true)
    (hcan : e.isCanonical = true) (hpos : 0 < e.sequenceNumber)
    (hp : p ∈ config.buildPgProjections kgPool) (hq : q ∈ config.buildPgProjections kgPool)
    (hpq : p ≠ q) (hpk : m.owns p k = true) (hqk : m.owns q k = true) :
    ∃ s, ReflTransGen (Service.Step ext config kgPool) ⟨[e], {}, ∅⟩ s
      ∧ s.Processed config kgPool
      ∧ m.rows s.stores k ≠ m.ledger.row (s.eventStore.map StoredEvent.counted) k := by
  have hnames : ∀ r ∈ config.buildPgProjections kgPool, ∀ r' ∈ config.buildPgProjections kgPool,
      r.checkpointName = r'.checkpointName → r = r' := namesDistinct_buildPgProjections
  have hstart : μ m.ledger.init + (share e a p ⟨[e], {}, ∅⟩ + share e a q ⟨[e], {}, ∅⟩)
      ≤ μ (m.rows {} k) := by
    have hzero : ∀ r, share e a r ⟨[e], {}, ∅⟩ = 0 := fun r => if_pos hpos
    rw [hzero, hzero, m.rows_start, add_zero, add_zero]
  obtain ⟨s, hrun, hstore, hdone, hle⟩ := exists_run_processed config kgPool
    (J := fun s => μ m.ledger.init + (share e a p s + share e a q s) ≤ μ (m.rows s.stores k))
    hsize hpos hok hstart fun r hr s s' hstore hadv hle =>
      le_sum_of_advances hμ ha.le hk hpk hqk (fun h => hpq (hnames p hp q hq h))
        (hnames r hr p hp) (hnames r hr q hq) hstore hsize hadv hle
  have hcounted : e.counted = ParsedEvent.parseOrUnknown e := if_pos hcan
  have hshare : ∀ r ∈ config.buildPgProjections kgPool, m.owns r k = true →
      share e a r s = a := by
    intro r hr hrk
    have hwants : EventReader.wants (PgWorker.mk r config.batchSize).eventTypeStrs e = true :=
      ReadModel.wants_of_owns hrk ((congrArg (m.ledger.concerns k) hcounted).trans hk)
    exact if_neg (not_lt.mpr (hdone r hr e (hstore ▸ List.mem_singleton_self e) hwants))
  rw [hshare p hp hpk, hshare q hq hqk] at hle
  refine ⟨s, hrun, hdone, fun heq => ?_⟩
  have hrow : m.ledger.row (s.eventStore.map StoredEvent.counted) k
      = m.ledger.step m.ledger.init (ParsedEvent.parseOrUnknown e) := by
    rw [hstore]
    show m.ledger.apply k m.ledger.init [e.counted] = _
    rw [hcounted, Ledger.apply_cons, if_pos hk]
    rfl
  rw [heq, hrow, hμ] at hle
  linarith

end TwoWriters

/-! ## Exactly the single writers accumulate once -/

/-- **Every event is accumulated once**: whatever the size of the batches, the
events and the interleaving, once the event store has been processed. -/
def ProjectionsConfig.AccumulatesOnce (ext : Externals) (config : ProjectionsConfig)
    (kgPool : Bool) : Prop :=
  ∀ (batchSize : ℕ) (s₀ s : Service), s₀.Fresh →
    ReflTransGen (Service.Step ext { config with batchSize } kgPool) s₀ s →
    s.Processed { config with batchSize } kgPool →
    s.AccumulatedOnce ext { config with batchSize }

variable (config kgPool) in
/-- With two writers of the totals of vaults, a deposit is counted twice. -/
theorem exists_vault_counted_twice (hext : ext.Lawful) (hsize : 1 ≤ config.batchSize)
    (hshards : 1 ≤ config.positionTrackingShards)
    (h : config.isProjectionEnabled "vault_state" = true)
    (h' : config.isProjectionEnabled "vault_state:dual" = true) :
    ∃ s, ReflTransGen (Service.Step ext config kgPool) { eventStore := [firstDeposit] } s
      ∧ s.Processed config kgPool ∧ ¬ s.AccumulatedOnce ext config := by
  let k := firstVault ext
  let i := Shard.shardOfVault ext config.positionTrackingShards k.termId k.curveId
  have hi : i < config.positionTrackingShards := Shard.shardOfVault_lt hshards _ _
  have hp : PgProjection.vaultState i config.positionTrackingShards
      ∈ config.buildPgProjections kgPool :=
    ProjectionsConfig.mem_buildPgProjections.mpr ⟨h, hi, rfl⟩
  have hq : PgProjection.vaultStateDual i config.positionTrackingShards kgPool
      ∈ config.buildPgProjections kgPool :=
    ProjectionsConfig.mem_buildPgProjections.mpr ⟨h', hi, rfl, rfl⟩
  have howns : ownsShardVault ext i config.positionTrackingShards k = true :=
    (Shard.ownsVault_iff hi _ _).mpr rfl
  obtain ⟨s, hrun, hdone, hne⟩ := exists_run_counted_twice (m := vaultTotals hext)
    (e := firstDeposit) (μ := fun r => (r.map Totals.totalDeposits).getD 0) (a := 10) hsize
    (PgProjection.exists_process_deposited ext _ _) (totalDeposits_firstDeposit ext) (by norm_num)
    concerns_firstDeposit rfl (by decide) hp hq nofun howns howns
  refine ⟨s, hrun, hdone, fun honce => hne ?_⟩
  have hwrites : config.writesVaults = true := by
    rw [ProjectionsConfig.writesVaults, h]
    rfl
  have hrow := honce.vault k
  rw [if_pos hwrites] at hrow
  rw [← vaultTotals_rows hext] at hrow
  exact hrow

variable (ext config kgPool) in
/-- With two writers of the active positions, a deposit is counted twice. -/
theorem exists_active_counted_twice (hsize : 1 ≤ config.batchSize)
    (h : config.isProjectionEnabled "vault_holders_index" = true)
    (h' : config.isProjectionEnabled "vault_holders_index:dual" = true) :
    ∃ s, ReflTransGen (Service.Step ext config kgPool) { eventStore := [firstDeposit] } s
      ∧ s.Processed config kgPool ∧ ¬ s.AccumulatedOnce ext config := by
  let k : PositionKey := ⟨"0xa", "0x07", ext.toString ⟨1, 0⟩⟩
  have hp : PgProjection.vaultHoldersIndex ∈ config.buildPgProjections kgPool :=
    ProjectionsConfig.mem_buildPgProjections.mpr ⟨h, trivial⟩
  have hq : PgProjection.vaultHoldersIndexDual kgPool ∈ config.buildPgProjections kgPool :=
    ProjectionsConfig.mem_buildPgProjections.mpr ⟨h', rfl⟩
  have hk : (activeLedger ext).concerns k (.deposited (.fromEvent firstDeposit) firstDepositData)
      = true := decide_eq_true rfl
  have hμ : ∀ r : Option ActiveVaultPositionRow,
      (((activeLedger ext).step r (.deposited (.fromEvent firstDeposit) firstDepositData)).map
        ActiveVaultPositionRow.totalDeposits).getD 0
        = (r.map ActiveVaultPositionRow.totalDeposits).getD 0 + 10 := by
    intro r
    cases r with
    | none => exact val_ten.trans (zero_add 10).symm
    | some t => exact congrArg (t.totalDeposits + ·) val_ten
  obtain ⟨s, hrun, hdone, hne⟩ := exists_run_counted_twice (m := activePositions ext)
    (e := firstDeposit) (k := k)
    (μ := fun r => (r.map ActiveVaultPositionRow.totalDeposits).getD 0) (a := 10) hsize
    (PgProjection.exists_process_deposited ext _ _) hμ (by norm_num) hk rfl (by decide) hp hq
    nofun rfl rfl
  refine ⟨s, hrun, hdone, fun honce => hne ?_⟩
  have hwrites : config.writesActivePositions = true := by
    rw [ProjectionsConfig.writesActivePositions, h]
    rfl
  have hrow := honce.activeVaultPosition k
  rw [if_pos hwrites] at hrow
  exact hrow

/-- **Exactly the processes whose tables have single writers accumulate every
event once.** -/
theorem accumulatesOnce_iff (hext : ext.Lawful) (hshards : 1 ≤ config.positionTrackingShards) :
    config.AccumulatesOnce ext kgPool ↔ config.SingleWriters := by
  constructor
  · intro honce
    have hstart : (⟨[firstDeposit], {}, ∅⟩ : Service).Fresh :=
      Service.fresh_singleton (by decide)
    constructor
    · rintro ⟨h, h'⟩
      obtain ⟨s, hrun, hdone, hnot⟩ := exists_vault_counted_twice
        { config with batchSize := 1 } kgPool hext le_rfl hshards h h'
      exact hnot (honce 1 _ s hstart hrun hdone)
    · rintro ⟨h, h'⟩
      obtain ⟨s, hrun, hdone, hnot⟩ := exists_active_counted_twice
        ext { config with batchSize := 1 } kgPool le_rfl h h'
      exact hnot (honce 1 _ s hstart hrun hdone)
  · intro hsingle batchSize s₀ s hfresh hrun hdone
    have hsingle' : { config with batchSize }.SingleWriters := hsingle
    exact Service.accumulatedOnce_of_singleWriters hext hshards hsingle' hfresh hrun hdone

/-- The process that runs everything but the dual projections accumulates every
event once. -/
theorem accumulatesOnce_without_dual :
    ({ disabledProjections := ["vault_state:dual", "vault_holders_index:dual"] } :
      ProjectionsConfig).AccumulatesOnce .exact false :=
  (accumulatesOnce_iff Externals.exact_lawful (by decide)).mpr ⟨by decide, by decide⟩

/-- **Without any list of names, a deposit is counted twice.** -/
theorem default_not_accumulatesOnce :
    ∃ s, ReflTransGen (Service.Step .exact {} false) { eventStore := [firstDeposit] } s
      ∧ s.Processed {} false ∧ ¬ s.AccumulatedOnce .exact {} :=
  exists_vault_counted_twice {} false Externals.exact_lawful (by decide) (by decide) rfl rfl
