import IntuitionCore.Library.Redelivery
import IntuitionCore.Library.Run
import IntuitionCore.Projections.Positions

/-!
# Batches that are processed again

A worker may apply a batch and stop, or fail, before its checkpoint is saved.
It then reads from the old checkpoint again, and applies what it read before,
perhaps with events that have come in since.

The writes are upserts that *add*, so a deposit that is applied again is added
again. Only events whose amounts are zero can be applied any number of times:
a schedule in which every batch that is applied again adds nothing ends with
the same totals and shares as one in which no batch is.
-/

open Relation

/-! ## Schedules -/

/-- The steps of one worker over a growing event store. What may be processed
again, its checkpoint not being saved, is a parameter. -/
inductive Service.WorkerStep (ext : Externals) (w : PgWorker) (mayReplay : Service → Prop) :
    Service → Service → Prop
  /-- Events are appended. -/
  | grows {s s' : Service} (h : s.Grows s') : WorkerStep ext w mayReplay s s'
  /-- A batch is applied, and its checkpoint saved. -/
  | advances {s s' : Service} (h : w.Advances ext s s') : WorkerStep ext w mayReplay s s'
  /-- A batch is applied, and its checkpoint is not saved. -/
  | replays {s s' : Service} (hs : mayReplay s) (h : w.Replays ext s s') :
      WorkerStep ext w mayReplay s s'

/-- Two services agree in what projections add up: the totals of vaults, and
the shares, deposits and profits of positions. -/
structure Service.SameAccumulators (s s' : Service) : Prop where
  /-- The columns `total_deposits` and `total_redemptions` of `vault`. -/
  vault : ∀ k, (s.stores.db.vault.lookup k).map VaultRow.totals
    = (s'.stores.db.vault.lookup k).map VaultRow.totals
  /-- The columns `shares`, `total_deposits` and `realized_pnl` of `position`. -/
  position : ∀ k, (s.stores.db.position.lookup k).map
      (fun r => (r.shares, r.totalDeposits, r.realizedPnl))
    = (s'.stores.db.position.lookup k).map fun r => (r.shares, r.totalDeposits, r.realizedPnl)
  /-- The column `shares` of `active_vault_position`. -/
  activeVaultPosition : ∀ k,
    (s.stores.db.activeVaultPosition.lookup k).map ActiveVaultPositionRow.shares
      = (s'.stores.db.activeVaultPosition.lookup k).map ActiveVaultPositionRow.shares

/-! ## Events that add nothing -/

namespace ParsedEvent

/-- Whether an event adds to the totals of its vault. -/
def addsToTotals : ParsedEvent → Bool
  | deposited _ data => data.assetsAfterFees.val ≠ 0
  | redeemed _ data => data.assets.val ≠ 0
  | _ => false

/-- Whether an event adds to its position. -/
def addsToPosition : ParsedEvent → Bool
  | deposited _ data => data.shares.val ≠ 0 || data.assetsAfterFees.val ≠ 0
  | redeemed _ data => data.shares.val ≠ 0 || data.assets.val ≠ 0
  | _ => false

/-- Whether an event adds to the shares of its active position. -/
def addsToShares : ParsedEvent → Bool
  | deposited _ data => data.shares.val ≠ 0
  | redeemed _ data => data.shares.val ≠ 0
  | _ => false

end ParsedEvent

/-- Whether a projection adds an amount of an event to a row. -/
def PgProjection.adds (ext : Externals) (p : PgProjection) (e : ParsedEvent) : Bool :=
  match p with
  | .vaultState i n | .vaultStateDual i n _ => e.isOfShard ext i n && e.addsToTotals
  | .positionTracking i n => e.isOfShard ext i n && e.addsToPosition
  | .vaultHoldersIndex | .vaultHoldersIndexDual _ => e.addsToShares
  | _ => false

/-- The batch a worker would read now adds nothing. -/
def PgWorker.ReadsNothingToAdd (ext : Externals) (w : PgWorker) (s : Service) : Prop :=
  ∀ e ∈ w.readBatch s, w.projection.adds ext (ParsedEvent.parseOrUnknown e) = false

section Absorbs

variable {ext : Externals} {e : ParsedEvent}

variable (ext) in
/-- An event that adds nothing at most sees to it that a vault has a row. -/
theorem totalsStep_of_adds_nothing (h : e.addsToTotals = false) :
    (∀ r, totalsStep ext r e = some (r.getD {})) ∨ ∀ r, totalsStep ext r e = r := by
  cases e with
  | deposited metadata data =>
    have hzero : data.assetsAfterFees.val = 0 := by simpa [ParsedEvent.addsToTotals] using h
    refine .inl fun r => ?_
    cases r <;> simp [totalsStep, Totals.onDeposit, hzero]
  | redeemed metadata data =>
    have hzero : data.assets.val = 0 := by simpa [ParsedEvent.addsToTotals] using h
    refine .inl fun r => ?_
    cases r <;> simp [totalsStep, Totals.onRedeem, hzero]
  | sharePriceChanged metadata data =>
    cases hcap : computeMarketCap ext (ext.toString data.totalShares)
      (ext.toString data.sharePrice) with
    | ok marketCap => exact .inl fun r => by simp only [totalsStep, hcap]
    | error err => exact .inr fun r => by simp only [totalsStep, hcap]
  | _ => exact .inr fun r => rfl

/-- Exactly the events that add nothing to totals do nothing when they are
applied again. -/
theorem totalsStep_twice_iff :
    (∀ r, totalsStep ext (totalsStep ext r e) e = totalsStep ext r e) ↔ e.addsToTotals = false := by
  constructor
  · intro h
    cases e with
    | deposited metadata data =>
      have htwice := congrArg Totals.totalDeposits (Option.some.inj (h none))
      have hzero : data.assetsAfterFees.val = 0 := add_eq_left.mp htwice
      simp [ParsedEvent.addsToTotals, hzero]
    | redeemed metadata data =>
      have htwice := congrArg Totals.totalRedemptions (Option.some.inj (h none))
      have hzero : data.assets.val = 0 := add_eq_left.mp htwice
      simp [ParsedEvent.addsToTotals, hzero]
    | _ => rfl
  · intro he r
    obtain h | h := totalsStep_of_adds_nothing ext he <;> rw [h, h]
    rfl

/-- The totals of vaults absorb the events that add nothing. -/
theorem totalsLedger_absorbs : (totalsLedger ext).Absorbs fun e => e.addsToTotals = false where
  twice e he := totalsStep_twice_iff.mpr he
  around e f he hf r := by
    show totalsStep ext (totalsStep ext (totalsStep ext r e) f) e
      = totalsStep ext (totalsStep ext r f) e
    obtain h | h := totalsStep_of_adds_nothing ext he <;>
      obtain h' | h' := totalsStep_of_adds_nothing ext hf <;>
      simp only [h, h', Option.getD_some]

/-- The cost basis of a position, computed again. -/
def PositionColumns.recost (ext : Externals) (r : PositionColumns) : PositionColumns :=
  { r with
    costBasis :=
      if r.totalSharesAcquired > 0 then ext.numericDiv r.totalDepositsValue r.totalSharesAcquired
      else 0 }

variable (ext) in
/-- An event that adds nothing at most sees to it that there is a position, and
that its cost basis is what it should be. -/
theorem positionStep_of_adds_nothing (h : e.addsToPosition = false) :
    (∀ r, positionStep ext r e = some ((r.getD {}).recost ext))
      ∨ (∀ r, positionStep ext r e = some (r.getD {})) ∨ ∀ r, positionStep ext r e = r := by
  cases e with
  | deposited metadata data =>
    have hzero : data.shares.val = 0 ∧ data.assetsAfterFees.val = 0 := by
      simpa [ParsedEvent.addsToPosition] using h
    refine .inl fun r => ?_
    cases r <;> simp [positionStep, PositionColumns.onDeposit, PositionColumns.recost, hzero]
  | redeemed metadata data =>
    have hzero : data.shares.val = 0 ∧ data.assets.val = 0 := by
      simpa [ParsedEvent.addsToPosition] using h
    refine .inr (.inl fun r => ?_)
    cases r <;> simp [positionStep, PositionColumns.onRedeem, hzero]
  | _ => exact .inr (.inr fun r => rfl)

/-- Exactly the events that add nothing to a position do nothing when they are
applied again. -/
theorem positionStep_twice_iff :
    (∀ r, positionStep ext (positionStep ext r e) e = positionStep ext r e)
      ↔ e.addsToPosition = false := by
  constructor
  · intro h
    cases e with
    | deposited metadata data =>
      have htwice := Option.some.inj (h none)
      have hshares : data.shares.val = 0 :=
        add_eq_left.mp (congrArg PositionColumns.shares htwice)
      have hassets : data.assetsAfterFees.val = 0 :=
        add_eq_left.mp (congrArg PositionColumns.totalDeposits htwice)
      simp [ParsedEvent.addsToPosition, hshares, hassets]
    | redeemed metadata data =>
      have htwice := Option.some.inj (h none)
      have hshares : data.shares.val = 0 :=
        sub_eq_self.mp (congrArg PositionColumns.shares htwice)
      have hassets : data.assets.val - data.shares.val * 0 = 0 :=
        add_eq_left.mp (congrArg PositionColumns.realizedPnl htwice)
      rw [mul_zero, sub_zero] at hassets
      simp [ParsedEvent.addsToPosition, hshares, hassets]
    | _ => rfl
  · intro he r
    obtain h | h | h := positionStep_of_adds_nothing ext he <;> rw [h, h] <;> rfl

/-- Positions absorb the events that add nothing. -/
theorem positionColumns_absorbs (hext : ext.Lawful) :
    (positionColumns hext).ledger.Absorbs fun e => e.addsToPosition = false where
  twice e he := positionStep_twice_iff.mpr he
  around e f he hf r := by
    show positionStep ext (positionStep ext (positionStep ext r e) f) e
      = positionStep ext (positionStep ext r f) e
    obtain h | h | h := positionStep_of_adds_nothing ext he <;>
      obtain h' | h' | h' := positionStep_of_adds_nothing ext hf <;>
      simp only [h, h', Option.getD_some] <;> rfl

/-- An event that adds nothing makes an active position without shares, or
deletes one. -/
theorem activeSharesStep_of_adds_nothing (h : e.addsToShares = false) :
    (∀ r, activeSharesStep r e = some (r.getD 0))
      ∨ (∀ r, activeSharesStep r e = r.filter fun x => !decide (x ≤ 0))
      ∨ ∀ r, activeSharesStep r e = r := by
  cases e with
  | deposited metadata data =>
    have hzero : data.shares.val = 0 := by simpa [ParsedEvent.addsToShares] using h
    refine .inl fun r => ?_
    rw [activeSharesStep, hzero, add_zero]
  | redeemed metadata data =>
    have hzero : data.shares.val = 0 := by simpa [ParsedEvent.addsToShares] using h
    refine .inr (.inl fun r => ?_)
    rw [activeSharesStep, hzero]
    simp only [sub_zero, Option.map_id_fun', id]
  | _ => exact .inr (.inr fun r => rfl)

/-- Exactly the events that add nothing to an active position do nothing when
they are applied again. -/
theorem activeSharesStep_twice_iff :
    (∀ r, activeSharesStep (activeSharesStep r e) e = activeSharesStep r e)
      ↔ e.addsToShares = false := by
  constructor
  · intro h
    cases e with
    | deposited metadata data =>
      have hzero : data.shares.val = 0 := add_eq_left.mp (Option.some.inj (h (some 0)))
      simp [ParsedEvent.addsToShares, hzero]
    | redeemed metadata data =>
      -- a position with enough shares for two redemptions
      have hstep : ∀ x, data.shares.val < x →
          activeSharesStep (some x) (.redeemed metadata data) = some (x - data.shares.val) := by
        intro x hx
        simp [activeSharesStep, Option.filter, hx]
      have hone : data.shares.val < 2 * |data.shares.val| + 1 := by
        linarith [le_abs_self data.shares.val, abs_nonneg data.shares.val]
      have htwo : data.shares.val < 2 * |data.shares.val| + 1 - data.shares.val := by
        linarith [le_abs_self data.shares.val]
      have htwice := h (some (2 * |data.shares.val| + 1))
      rw [hstep _ hone, hstep _ htwo] at htwice
      have hzero : data.shares.val = 0 := sub_eq_self.mp (Option.some.inj htwice)
      simp [ParsedEvent.addsToShares, hzero]
    | _ => rfl
  · intro he r
    obtain h | h | h := activeSharesStep_of_adds_nothing he <;> simp only [h]
    · rfl
    · rw [Option.filter_filter]
      simp only [Bool.and_self]

/-- Active positions absorb the events that add nothing. -/
theorem activeShares_absorbs :
    (activeShares ext).ledger.Absorbs fun e => e.addsToShares = false where
  twice e he := activeSharesStep_twice_iff.mpr he
  around e f he hf r := by
    show activeSharesStep (activeSharesStep (activeSharesStep r e) f) e
      = activeSharesStep (activeSharesStep r f) e
    obtain h | h | h := activeSharesStep_of_adds_nothing he <;>
      obtain h' | h' | h' := activeSharesStep_of_adds_nothing hf <;>
      simp only [h, h', Option.getD_some] <;>
      cases r <;> grind

end Absorbs

section Owners

variable {ext : Externals} {p : PgProjection} {e : ParsedEvent} {i n : ℕ}

/-- What a projection adds nothing of does not add to the totals it maintains. -/
theorem PgProjection.addsToTotals_eq_false (hext : ext.Lawful) {k : VaultKey}
    (hadds : p.adds ext e = false) (hown : ownsVaultRow ext p k = true)
    (hk : vaultOf ext e = some k) : e.addsToTotals = false := by
  have hshard : ∀ {i n}, ownsShardVault ext i n k = true →
      (e.isOfShard ext i n && e.addsToTotals) = false → e.addsToTotals = false := by
    intro i n hown hadds
    rw [ParsedEvent.isOfShard_eq hext, hk] at hadds
    exact Bool.and_eq_false_imp.mp hadds hown
  cases p with
  | vaultState i n => exact hshard hown hadds
  | vaultStateDual i n kg => exact hshard hown hadds
  | _ => cases hown

/-- What a projection adds nothing of does not add to the positions it
maintains. -/
theorem PgProjection.addsToPosition_eq_false (hext : ext.Lawful) {k : PositionKey}
    (hadds : p.adds ext e = false) (hown : ownsPositionRow ext p k = true)
    (hk : (positionLedger ext).key e = some k) : e.addsToPosition = false := by
  cases p with
  | positionTracking i n =>
    rw [PgProjection.adds, ParsedEvent.isOfShard_eq hext] at hadds
    cases e with
    | deposited | redeemed =>
      cases hk
      exact (Bool.and_eq_false_imp.mp hadds) hown
    | _ => rfl
  | _ => cases hown

/-- What a projection adds nothing of does not add to the active positions it
maintains. -/
theorem PgProjection.addsToShares_eq_false {k : PositionKey} (hadds : p.adds ext e = false)
    (hown : ownsActiveRow p k = true) : e.addsToShares = false := by
  cases p with
  | vaultHoldersIndex | vaultHoldersIndexDual => exact hadds
  | _ => cases hown

end Owners

/-! ## Runs -/

section Runs

variable {ext : Externals} {κ ρ : Type} [DecidableEq κ] {m : ReadModel ext κ ρ} {w : PgWorker}
  {p : PgProjection} {P : ParsedEvent → Prop} {mayReplay : Service → Prop} {s₀ s s' : Service}

theorem ReadModel.namesDistinct_singleton : ReadModel.NamesDistinct [p] := by
  intro q hq q' hq' _
  rw [List.mem_singleton.mp hq, List.mem_singleton.mp hq']

theorem ReadModel.solo_singleton : m.Solo [p] := by
  intro k q hq q' hq' _ _
  rw [List.mem_singleton.mp hq, List.mem_singleton.mp hq']

/-- The events of a batch are canonical. -/
theorem PgWorker.counted_of_mem_readBatch {e : StoredEvent} (he : e ∈ w.readBatch s) :
    e.counted = ParsedEvent.parseOrUnknown e := by
  have h := List.map_inj_left.mp (ReadModel.parseBatchOnce_readBatch (w := w) (s := s)) e he
  exact h.symm

/-- **A step of a worker is a step of a reader that may lose its mark**, if
what it may apply again satisfies `P` as far as it concerns the rows it
maintains. -/
theorem Service.WorkerStep.lossy
    (hP : ∀ s, mayReplay s → ∀ e ∈ w.readBatch s, ∀ k, m.owns w.projection k = true →
      m.ledger.concerns k (ParsedEvent.parseOrUnknown e) = true → P (ParsedEvent.parseOrUnknown e))
    (hord : Feed.InOrder StoredEvent.sequenceNumber s.eventStore)
    (h : Service.WorkerStep ext w mayReplay s s') :
    Feed.LossyStep StoredEvent.sequenceNumber m.history (fun e => P e.counted) w.reader
      (m.feed [w.projection] s) (m.feed [w.projection] s') := by
  have hnames := ReadModel.namesDistinct_singleton (p := w.projection)
  have hsolo := ReadModel.solo_singleton (m := m) (p := w.projection)
  have hmem := List.mem_singleton_self w.projection
  cases h with
  | grows h =>
    obtain ⟨es, hord', hpos, rfl⟩ := h
    exact .grow es hord' hpos
  | advances h =>
    obtain ⟨hne, hfeed⟩ := ReadModel.feed_of_advances (m := m) hnames hsolo hmem hord h
    rw [hfeed]
    exact .saved (ReadModel.covers hnames hsolo hmem) hne
  | replays hs h =>
    have hpoll : w.readBatch s
        = (m.feed [w.projection] s).pollOf StoredEvent.sequenceNumber w.reader :=
      ReadModel.readBatch_eq_pollOf hord
    rw [ReadModel.feed_applyBatch hnames hsolo hmem h.2, hpoll]
    refine .lost fun k hk e he hc => ?_
    rw [← hpoll] at he
    have hcounted := PgWorker.counted_of_mem_readBatch he
    have howns := (ReadModel.owner_eq_some_iff hnames hsolo hmem).mp hk
    rw [hcounted]
    refine hP s hs e he k howns ?_
    rw [← hcounted]
    exact hc

/-- **Where a worker has nothing left to read, a row is its ledger's row of the
whole log**, whatever was applied again on the way, if the rows absorb it. -/
theorem ReadModel.rows_of_replayed (hL : m.ledger.Absorbs P)
    (hP : ∀ s, mayReplay s → ∀ e ∈ w.readBatch s, ∀ k, m.owns w.projection k = true →
      m.ledger.concerns k (ParsedEvent.parseOrUnknown e) = true → P (ParsedEvent.parseOrUnknown e))
    (hfresh : s₀.Fresh) (hrun : ReflTransGen (Service.WorkerStep ext w mayReplay) s₀ s)
    (hdone : w.Done s) (k : κ) :
    m.rows s.stores k
      = if m.owns w.projection k = true then m.history.row s.eventStore k else m.ledger.init := by
  have hahead := Run.invariant
    (P := fun s => (m.feed [w.projection] s).Ahead StoredEvent.sequenceNumber m.history
      (fun e => P e.counted) w.reader)
    (fun s s' hs hstep => hs.step (hL.comap StoredEvent.counted) (hstep.lossy hP hs.inOrder))
    hrun (ReadModel.exact_of_fresh hfresh).ahead
  have hord : Feed.InOrder StoredEvent.sequenceNumber s.eventStore := hahead.inOrder
  have hnil : (m.feed [w.projection] s).pollOf StoredEvent.sequenceNumber w.reader = [] :=
    Feed.poll_eq_nil hdone
  have hrows := ReadModel.rows_of_done ReadModel.namesDistinct_singleton ReadModel.solo_singleton
    (hahead.exact hnil)
    (fun q hq => ⟨w.batchSize, by rw [List.mem_singleton.mp hq]; exact hdone⟩) k
  rw [hrows]
  exact if_congr (by simp) rfl rfl

variable {n n' : ℕ} {s₀' : Service}

/-- **What is applied again does not show if it adds nothing**: such a run, once
it has processed the event store, has added up the same as one in which every
batch is processed once. -/
theorem sameAccumulators_of_replays_nothing_to_add (hext : ext.Lawful) (hfresh : s₀.Fresh)
    (hfresh' : s₀'.Fresh)
    (hrun : ReflTransGen
      (Service.WorkerStep ext ⟨p, n⟩ ((⟨p, n⟩ : PgWorker).ReadsNothingToAdd ext)) s₀ s)
    (hrun' : ReflTransGen (Service.WorkerStep ext ⟨p, n'⟩ fun _ => False) s₀' s')
    (hstore : s.eventStore = s'.eventStore) (hdone : (⟨p, n⟩ : PgWorker).Done s)
    (hdone' : (⟨p, n'⟩ : PgWorker).Done s') : s.SameAccumulators s' where
  vault k := by
    have hrows := ReadModel.rows_of_replayed (m := vaultTotals hext) totalsLedger_absorbs
      (fun s hs e he k hown hk => PgProjection.addsToTotals_eq_false hext (hs e he) hown
        (of_decide_eq_true hk)) hfresh hrun hdone k
    have hrows' := ReadModel.rows_of_replayed (m := vaultTotals hext) totalsLedger_absorbs
      (fun s hs => hs.elim) hfresh' hrun' hdone' k
    rw [← vaultTotals_rows hext, ← vaultTotals_rows hext, hrows, hrows', hstore]
  position k := by
    have hrows := ReadModel.rows_of_replayed (m := positionColumns hext)
      (positionColumns_absorbs hext)
      (fun s hs e he k hown hk => PgProjection.addsToPosition_eq_false hext (hs e he) hown
        (of_decide_eq_true hk)) hfresh hrun hdone k
    have hrows' := ReadModel.rows_of_replayed (m := positionColumns hext)
      (positionColumns_absorbs hext) (fun s hs => hs.elim) hfresh' hrun' hdone' k
    have hsame : (s.stores.db.position.lookup k).map PositionRow.columns
        = (s'.stores.db.position.lookup k).map PositionRow.columns := by
      rw [hstore, ← hrows'] at hrows
      exact hrows
    have hcols := congrArg
      (Option.map fun c : PositionColumns => (c.shares, c.totalDeposits, c.realizedPnl)) hsame
    rw [Option.map_map, Option.map_map] at hcols
    exact hcols
  activeVaultPosition k := by
    have hrows := ReadModel.rows_of_replayed (m := activeShares ext) activeShares_absorbs
      (fun s hs e he k hown _ => PgProjection.addsToShares_eq_false (hs e he) hown)
      hfresh hrun hdone k
    have hrows' := ReadModel.rows_of_replayed (m := activeShares ext) activeShares_absorbs
      (fun s hs => hs.elim) hfresh' hrun' hdone' k
    rw [hstore, ← hrows'] at hrows
    exact hrows

end Runs

/-! ## A batch of one event -/

section OneEvent

variable {ext : Externals} {w : PgWorker} {e : StoredEvent}

/-- A worker that reads an event processes it, once. -/
theorem exists_processed_once (mayReplay : Service → Prop) (hsize : 1 ≤ w.batchSize)
    (hwants : EventReader.wants w.eventTypeStrs e = true) (hpos : 0 < e.sequenceNumber)
    (hok : ∀ pool, ∃ pool',
      w.projection.processParsedBatch ext pool [ParsedEvent.parseOrUnknown e] = .ok pool')
    (pool : Stores) :
    ∃ s, ReflTransGen (Service.WorkerStep ext w mayReplay) ⟨[e], pool, ∅⟩ s
      ∧ s.eventStore = [e] ∧ w.Done s
      ∧ w.projection.processParsedBatch ext pool [ParsedEvent.parseOrUnknown e]
        = .ok s.stores := by
  obtain ⟨s, hs⟩ := PgWorker.exists_advances (s := ⟨[e], pool, ∅⟩) rfl hsize hwants hpos (hok _)
  obtain ⟨hstore, -, -, hprocess⟩ := hs.singleton rfl hsize
  exact ⟨s, .single (.advances hs), hstore, hs.done_singleton rfl hsize, hprocess⟩

/-- A worker that may process it again can process it twice. -/
theorem exists_processed_twice (mayReplay : Service → Prop) (hsize : 1 ≤ w.batchSize)
    (hwants : EventReader.wants w.eventTypeStrs e = true) (hpos : 0 < e.sequenceNumber)
    (hok : ∀ pool, ∃ pool',
      w.projection.processParsedBatch ext pool [ParsedEvent.parseOrUnknown e] = .ok pool')
    (hmay : mayReplay ⟨[e], {}, ∅⟩) :
    ∃ s pool, ReflTransGen (Service.WorkerStep ext w mayReplay) ⟨[e], {}, ∅⟩ s
      ∧ s.eventStore = [e] ∧ w.Done s
      ∧ w.projection.processParsedBatch ext {} [ParsedEvent.parseOrUnknown e] = .ok pool
      ∧ w.projection.processParsedBatch ext pool [ParsedEvent.parseOrUnknown e]
        = .ok s.stores := by
  obtain ⟨pool, hreplays, hprocess⟩ := PgWorker.exists_replays (s := ⟨[e], {}, ∅⟩) rfl hsize hwants
    hpos (hok _)
  obtain ⟨s, hrun, hstore, hdone, hagain⟩ :=
    exists_processed_once mayReplay hsize hwants hpos hok pool
  exact ⟨s, pool, .head (.replays hmay hreplays) hrun, hstore, hdone, hprocess, hagain⟩

/-- A deposit of nothing for nothing. -/
def emptyDeposit : StoredEvent :=
  { firstDeposit with
    eventData :=
      { deposited := some { firstDepositData with assetsAfterFees := ⟨0, 0⟩, shares := ⟨0, 0⟩ } } }

/-- A worker of `vault_state`, alone. -/
def vaultWorker : PgWorker := ⟨.vaultState 0 1, 500⟩

/-- An empty deposit that is applied again does not show. -/
theorem sameAccumulators_emptyDeposit :
    ∃ s s', ReflTransGen (Service.WorkerStep .exact vaultWorker
        (vaultWorker.ReadsNothingToAdd .exact)) ⟨[emptyDeposit], {}, ∅⟩ s
      ∧ ReflTransGen (Service.WorkerStep .exact vaultWorker fun _ => False)
        ⟨[emptyDeposit], {}, ∅⟩ s'
      ∧ s.SameAccumulators s' := by
  have hok : ∀ pool, ∃ pool', vaultWorker.projection.processParsedBatch .exact pool
      [ParsedEvent.parseOrUnknown emptyDeposit] = .ok pool' := fun pool =>
    PgProjection.exists_process_deposited .exact _ _ _ pool
  have hfresh : (⟨[emptyDeposit], {}, ∅⟩ : Service).Fresh :=
    Service.fresh_singleton (by decide)
  have hreads : vaultWorker.ReadsNothingToAdd .exact ⟨[emptyDeposit], {}, ∅⟩ := by
    intro e he
    rw [PgWorker.readBatch_singleton rfl (by decide), if_pos (by decide +kernel)] at he
    rw [List.mem_singleton.mp he]
    decide +kernel
  obtain ⟨s, pool, hrun, hstore, hdone, -, -⟩ :=
    exists_processed_twice (w := vaultWorker) (e := emptyDeposit) _ (by decide) (by decide)
      (by decide) hok hreads
  obtain ⟨s', hrun', hstore', hdone', -⟩ :=
    exists_processed_once (w := vaultWorker) (e := emptyDeposit) (fun _ => False) (by decide)
      (by decide) (by decide) hok {}
  exact ⟨s, s', hrun, hrun', sameAccumulators_of_replays_nothing_to_add Externals.exact_lawful
    hfresh hfresh hrun hrun' (hstore.trans hstore'.symm) hdone hdone'⟩

/-- **A deposit that is applied again is counted twice.** -/
theorem deposit_replayed_not_sameAccumulators :
    ∃ s s', ReflTransGen (Service.WorkerStep .exact vaultWorker fun _ => True)
        ⟨[firstDeposit], {}, ∅⟩ s
      ∧ ReflTransGen (Service.WorkerStep .exact vaultWorker fun _ => False)
        ⟨[firstDeposit], {}, ∅⟩ s'
      ∧ s.eventStore = s'.eventStore ∧ vaultWorker.Done s ∧ vaultWorker.Done s'
      ∧ ¬ s.SameAccumulators s' := by
  have hok : ∀ pool, ∃ pool', vaultWorker.projection.processParsedBatch .exact pool
      [ParsedEvent.parseOrUnknown firstDeposit] = .ok pool' := fun pool =>
    PgProjection.exists_process_deposited .exact _ _ _ pool
  obtain ⟨s, pool, hrun, hstore, hdone, hfirst, hagain⟩ :=
    exists_processed_twice (w := vaultWorker) (e := firstDeposit) (fun _ => True)
      (by decide) (by decide) (by decide) hok trivial
  obtain ⟨s', hrun', hstore', hdone', honce⟩ :=
    exists_processed_once (w := vaultWorker) (e := firstDeposit) (fun _ => False) (by decide)
      (by decide) (by decide) hok {}
  refine ⟨s, s', hrun, hrun', hstore.trans hstore'.symm, hdone, hdone', fun hsame => ?_⟩
  -- the one holds twice what the other does
  have hrows : ∀ {pool pool'}, vaultWorker.projection.processParsedBatch .exact pool
      [ParsedEvent.parseOrUnknown firstDeposit] = .ok pool' →
      (vaultTotals Externals.exact_lawful).rows pool' (firstVault .exact)
        = totalsStep .exact ((vaultTotals Externals.exact_lawful).rows pool (firstVault .exact))
          (ParsedEvent.parseOrUnknown firstDeposit) := fun h =>
    ReadModel.rows_process_one h concerns_firstDeposit
  have hvault := hsame.vault (firstVault .exact)
  rw [← vaultTotals_rows Externals.exact_lawful, ← vaultTotals_rows Externals.exact_lawful,
    hrows hagain, hrows hfirst, hrows honce] at hvault
  exact totalsStep_firstDeposit_twice _ hvault

end OneEvent
