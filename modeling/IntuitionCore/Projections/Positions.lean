import IntuitionCore.Projections.Vaults

/-!
# The rows of positions

There are two tables of positions. In the one, `position_tracking` keeps every
position there ever was, with what was paid for its shares and what was made
from them. In the other, `vault_holders_index` keeps the positions that have
shares; a redemption that leaves none deletes the row, and one that finds no
row is lost. The same holds of `vault_holders_index:dual`.

The two take the account of a redemption from different fields: the receiver
of the assets in the first, the sender of the shares in the second.
-/

open Result

variable (ext : Externals)

/-- What the rows of positions are. -/
def positionLedger : Ledger ParsedEvent PositionKey (Option PositionRow) where
  key
    | .deposited _ data => some ⟨data.receiver, data.termId, ext.toString data.curveId⟩
    | .redeemed _ data => some ⟨data.receiver, data.termId, ext.toString data.curveId⟩
    | _ => none
  init := none
  step r
    | .deposited metadata data => some (PositionRow.onDeposit ext data.shares.val
        data.assetsAfterFees.val metadata.blockTimestamp r)
    | .redeemed metadata data => some (PositionRow.onRedeem data.shares.val data.assets.val
        metadata.blockTimestamp r)
    | _ => r

/-- What the rows of active positions are. -/
def activeLedger : Ledger ParsedEvent PositionKey (Option ActiveVaultPositionRow) where
  key
    | .deposited _ data => some ⟨data.receiver, data.termId, ext.toString data.curveId⟩
    | .redeemed _ data => some ⟨data.sender, data.termId, ext.toString data.curveId⟩
    | _ => none
  init := none
  step r
    | .deposited _ data => some (ActiveVaultPositionRow.onDeposit data.shares.val
        data.assetsAfterFees.val r)
    | .redeemed _ data => (r.map (ActiveVaultPositionRow.onRedeem data.shares.val
        data.assets.val)).filter fun r => !r.isZero
    | _ => r

variable {ext} {i n : ℕ} {kg : Bool}

/-! ## Positions -/

/-- **`position_tracking` records an event in the table of positions.** -/
theorem PositionTrackingProjection.position_processEvent (hext : ext.Lawful) (tx : Db)
    (e : ParsedEvent) :
    (PositionTrackingProjection.processEvent ext i n tx e).position
      = tx.position.record (positionLedger ext) (fun k => ownsShardVault ext i n k.vault) e := by
  cases e with
  | deposited metadata data | redeemed metadata data =>
    rw [PositionTrackingProjection.processEvent, Shard.shouldSkipShard_eq hext]
    show _ = if Shard.ownsVault ext i n data.termId (ext.toString data.curveId) then _ else _
    cases Shard.ownsVault ext i n data.termId (ext.toString data.curveId) <;> rfl
  | _ => rfl

/-! ## Active positions -/

/-- **`vault_holders_index` records an event in the table of active
positions**: what is left of a redeemed position is pruned at once. -/
theorem VaultHoldersIndexProjection.active_processEvent (tx : Db) (e : ParsedEvent) :
    (VaultHoldersIndexProjection.processEvent ext tx e).activeVaultPosition
      = tx.activeVaultPosition.record (activeLedger ext) (fun _ => true) e := by
  cases e with
  | redeemed metadata data => exact Table.alter_alter _ _ _ _
  | _ => rfl

/-- **`vault_holders_index:dual` records an event in the legacy table of active
positions.** -/
theorem VaultHoldersIndexDualProjection.active_processEvent (tx : Stores) (e : ParsedEvent) :
    (VaultHoldersIndexDualProjection.processEvent ext kg tx e).db.activeVaultPosition
      = tx.db.activeVaultPosition.record (activeLedger ext) (fun _ => true) e := by
  cases e with
  | redeemed metadata data => cases kg <;> exact Table.alter_alter _ _ _ _
  | _ => cases kg <;> rfl

/-! ## What leaves the rows alone -/

/-- The two tables of positions. -/
def Db.positions (db : Db) :
    Table PositionKey PositionRow × Table PositionKey ActiveVaultPositionRow :=
  (db.position, db.activeVaultPosition)

theorem VaultStateProjection.positions_processEvent (tx : Db) (e : ParsedEvent) (tx' : Db)
    (h : VaultStateProjection.processEvent ext i n tx e = .ok tx') :
    tx'.positions = tx.positions := by
  cases e with
  | deposited metadata data | redeemed metadata data =>
    rw [VaultStateProjection.processEvent] at h
    split at h <;> cases h <;> rfl
  | sharePriceChanged metadata data =>
    rw [VaultStateProjection.processEvent] at h
    split at h
    · cases h; rfl
    · obtain ⟨marketCap, -, h⟩ := bind_eq_ok.mp h
      cases h
      rfl
  | _ => cases h; rfl

theorem VaultStateDualProjection.positions_processEvent (tx : Stores) (e : ParsedEvent)
    (tx' : Stores) (h : VaultStateDualProjection.processEvent ext i n kg tx e = .ok tx') :
    tx'.db.positions = tx.db.positions := by
  cases e with
  | deposited metadata data | redeemed metadata data =>
    rw [VaultStateDualProjection.processEvent] at h
    split at h <;> cases h <;> cases kg <;> rfl
  | sharePriceChanged metadata data =>
    rw [VaultStateDualProjection.processEvent] at h
    split at h
    · cases h; rfl
    · obtain ⟨marketCap, -, h⟩ := bind_eq_ok.mp h
      cases h
      cases kg <;> rfl
  | _ => cases h; rfl

/-- Counting holders leaves every position alone. -/
theorem positions_refreshHolderCount (ks : List VaultKey) (tx : Db) :
    (ks.foldl (fun tx k => VaultRepo.refreshHolderCount tx k.termId k.curveId) tx).positions
      = tx.positions := by
  refine foldl_keeps (g := Db.positions) (fun tx k => ?_) ks tx
  unfold VaultRepo.refreshHolderCount Db.positions
  rfl

theorem PositionTrackingProjection.active_processEvent (tx : Db) (e : ParsedEvent) :
    (PositionTrackingProjection.processEvent ext i n tx e).activeVaultPosition
      = tx.activeVaultPosition := by
  cases e with
  | deposited metadata data | redeemed metadata data =>
    rw [PositionTrackingProjection.processEvent]
    split <;> rfl
  | _ => rfl

theorem VaultHoldersIndexProjection.position_processEvent (tx : Db) (e : ParsedEvent) :
    (VaultHoldersIndexProjection.processEvent ext tx e).position = tx.position := by
  cases e <;> rfl

theorem VaultHoldersIndexDualProjection.position_processEvent (tx : Stores) (e : ParsedEvent) :
    (VaultHoldersIndexDualProjection.processEvent ext kg tx e).db.position = tx.db.position := by
  cases e <;> cases kg <;> rfl

/-- The projections of vault totals leave every position alone. -/
theorem positions_processParsedBatch {p : PgProjection} {pool pool' : Stores}
    {events : List ParsedEvent} (h : p.processParsedBatch ext pool events = .ok pool')
    (hp : p.name = "vault_state" ∨ p.name = "vault_state:dual") :
    pool'.db.positions = pool.db.positions := by
  cases p with
  | vaultState i n =>
    obtain ⟨db, hdb, h⟩ := bind_eq_ok.mp h
    cases h
    exact foldlM_keeps VaultStateProjection.positions_processEvent hdb
  | vaultStateDual i n kg =>
    obtain ⟨tx, htx, h⟩ := bind_eq_ok.mp h
    cases h
    refine (positions_refreshHolderCount _ _).trans ?_
    rw [VaultStateDualProjection.withKg_db]
    exact foldlM_keeps (g := fun tx : Stores => tx.db.positions)
      VaultStateDualProjection.positions_processEvent htx
  | _ => exact absurd hp (by simp [PgProjection.name])

/-! ## Positions as read models -/

/-- The projections that maintain the row of a position. -/
def ownsPositionRow (ext : Externals) : PgProjection → PositionKey → Bool
  | .positionTracking i n => fun k => ownsShardVault ext i n k.vault
  | _ => fun _ => false

/-- The projections that maintain the row of an active position. -/
def ownsActiveRow : PgProjection → PositionKey → Bool
  | .vaultHoldersIndex => fun _ => true
  | .vaultHoldersIndexDual _ => fun _ => true
  | _ => fun _ => false

theorem name_of_ownsPositionRow {p : PgProjection} {k : PositionKey}
    (h : ownsPositionRow ext p k = true) : p.name = "position_tracking" := by
  cases p with
  | positionTracking => rfl
  | _ => cases h

/-- The writer of a position's row is the one of its shard. -/
theorem ownsPositionRow_iff {p : PgProjection} {k : PositionKey} (hp : p.Fits n kg)
    (hname : p.name = "position_tracking") :
    ownsPositionRow ext p k = true
      ↔ p.index = Shard.shardOfVault ext n k.termId k.curveId := by
  cases p with
  | positionTracking i m =>
    obtain ⟨hi, rfl⟩ := hp
    exact (Shard.ownsVault_iff hi _ _).trans eq_comm
  | _ => exact absurd hname (by simp [PgProjection.name])

theorem ownsActiveRow_iff {p : PgProjection} {k : PositionKey} :
    ownsActiveRow p k = true
      ↔ p.name = "vault_holders_index" ∨ p.name = "vault_holders_index:dual" := by
  cases p <;> simp [ownsActiveRow, PgProjection.name]

/-- **A batch is applied to the positions its projection owns.** -/
theorem position_processParsedBatch (hext : ext.Lawful) {p : PgProjection} {pool pool' : Stores}
    {events : List ParsedEvent} (h : p.processParsedBatch ext pool events = .ok pool')
    (k : PositionKey) :
    pool'.db.position.lookup k
      = if ownsPositionRow ext p k then
          (positionLedger ext).apply k (pool.db.position.lookup k) events
        else pool.db.position.lookup k := by
  cases p with
  | positionTracking i n =>
    cases h
    refine (positionLedger ext).foldl_row (v := fun tx : Db => tx.position.lookup k)
      (fun tx e => ?_) pool.db
    rw [PositionTrackingProjection.position_processEvent hext]
    exact Table.lookup_record _ _ _ _ _
  | vaultState i n =>
    have hpos := positions_processParsedBatch h (.inl rfl)
    exact congrArg (Finmap.lookup k) (congrArg Prod.fst hpos)
  | vaultStateDual i n kg =>
    have hpos := positions_processParsedBatch h (.inr rfl)
    exact congrArg (Finmap.lookup k) (congrArg Prod.fst hpos)
  | vaultHoldersIndex =>
    cases h
    refine congrArg (Finmap.lookup k)
      ((congrArg Prod.fst (positions_refreshHolderCount _ _)).trans ?_)
    exact foldl_keeps (g := Db.position) VaultHoldersIndexProjection.position_processEvent
      events pool.db
  | vaultHoldersIndexDual kg =>
    cases h
    refine congrArg (Finmap.lookup k) ((foldl_keeps (g := fun tx : Stores => tx.db.position)
      (fun tx k' => ?_) _ _).trans (foldl_keeps (g := fun tx : Stores => tx.db.position)
        VaultHoldersIndexDualProjection.position_processEvent events pool))
    cases kg <;> rfl
  | _ => cases h; rfl

/-- **A batch is applied to the active positions its projection owns.** -/
theorem active_processParsedBatch {p : PgProjection} {pool pool' : Stores}
    {events : List ParsedEvent} (h : p.processParsedBatch ext pool events = .ok pool')
    (k : PositionKey) :
    pool'.db.activeVaultPosition.lookup k
      = if ownsActiveRow p k then
          (activeLedger ext).apply k (pool.db.activeVaultPosition.lookup k) events
        else pool.db.activeVaultPosition.lookup k := by
  cases p with
  | vaultHoldersIndex =>
    cases h
    refine (congrArg (Finmap.lookup k)
      (congrArg Prod.snd (positions_refreshHolderCount _ _))).trans ?_
    refine (activeLedger ext).foldl_row (v := fun tx : Db => tx.activeVaultPosition.lookup k)
      (fun tx e => ?_) pool.db
    rw [VaultHoldersIndexProjection.active_processEvent]
    exact Table.lookup_record _ _ _ _ _
  | vaultHoldersIndexDual kg =>
    cases h
    refine (foldl_keeps (g := fun tx : Stores => tx.db.activeVaultPosition.lookup k)
      (fun tx k' => ?_) _ _).trans ?_
    · cases kg <;> rfl
    · refine (activeLedger ext).foldl_row
        (v := fun tx : Stores => tx.db.activeVaultPosition.lookup k) (fun tx e => ?_) pool
      rw [VaultHoldersIndexDualProjection.active_processEvent]
      exact Table.lookup_record _ _ _ _ _
  | positionTracking i n =>
    cases h
    exact congrArg (Finmap.lookup k) (foldl_keeps (g := Db.activeVaultPosition)
      PositionTrackingProjection.active_processEvent events pool.db)
  | vaultState i n =>
    have hpos := positions_processParsedBatch h (.inl rfl)
    exact congrArg (Finmap.lookup k) (congrArg Prod.snd hpos)
  | vaultStateDual i n kg =>
    have hpos := positions_processParsedBatch h (.inr rfl)
    exact congrArg (Finmap.lookup k) (congrArg Prod.snd hpos)
  | _ => cases h; rfl

/-- A projection whose rows deposits and redemptions concern consumes both. -/
theorem consumed_of_types {p : PgProjection} {e : ParsedEvent}
    (hp : p.eventTypes = [.deposited, .redeemed])
    (he : e.type? = some .deposited ∨ e.type? = some .redeemed) :
    ∃ t ∈ p.eventTypes, e.type? = some t := by
  rw [hp]
  simpa using he

/-- The rows of positions as a read model. -/
def positionRows (hext : ext.Lawful) : ReadModel ext PositionKey (Option PositionRow) where
  ledger := positionLedger ext
  rows pool k := pool.db.position.lookup k
  owns := ownsPositionRow ext
  rows_start _ := rfl
  rows_process := position_processParsedBatch hext
  consumed {p k e} hp hk := by
    refine consumed_of_types ?_ ?_
    · cases p <;> first
        | rfl
        | exact absurd hp Bool.false_ne_true
    · cases e <;> first
        | exact .inl rfl
        | exact .inr rfl
        | exact absurd (of_decide_eq_true hk) (Option.some_ne_none _).symm

/-- The rows of active positions as a read model. -/
def activePositions (ext : Externals) :
    ReadModel ext PositionKey (Option ActiveVaultPositionRow) where
  ledger := activeLedger ext
  rows pool k := pool.db.activeVaultPosition.lookup k
  owns := ownsActiveRow
  rows_start _ := rfl
  rows_process := active_processParsedBatch
  consumed {p k e} hp hk := by
    refine consumed_of_types ?_ ?_
    · cases p <;> first
        | rfl
        | exact absurd hp Bool.false_ne_true
    · cases e <;> first
        | exact .inl rfl
        | exact .inr rfl
        | exact absurd (of_decide_eq_true hk) (Option.some_ne_none _).symm

/-! ## What a position is worth -/

/-- The columns of a position that its deposits and redemptions add up in, and
its cost basis, which they are computed from. -/
structure PositionColumns where
  shares : ℚ := 0
  totalDeposits : ℚ := 0
  totalDepositsValue : ℚ := 0
  totalSharesAcquired : ℚ := 0
  costBasis : ℚ := 0
  realizedPnl : ℚ := 0
  deriving DecidableEq, Repr

def PositionRow.columns (r : PositionRow) : PositionColumns :=
  ⟨r.shares, r.totalDeposits, r.totalDepositsValue, r.totalSharesAcquired, r.costBasis,
    r.realizedPnl⟩

namespace PositionColumns

variable (ext) in
/-- A deposit adds to a position, and its cost basis is computed again. -/
def onDeposit (shares assetsAfterFees : ℚ) (r : Option PositionColumns) : PositionColumns :=
  match r with
  | none =>
    { shares
      totalDeposits := assetsAfterFees
      totalDepositsValue := assetsAfterFees
      totalSharesAcquired := shares
      costBasis := if shares > 0 then ext.numericDiv assetsAfterFees shares else 0 }
  | some r =>
    { r with
      shares := r.shares + shares
      totalDeposits := r.totalDeposits + assetsAfterFees
      totalDepositsValue := r.totalDepositsValue + assetsAfterFees
      totalSharesAcquired := r.totalSharesAcquired + shares
      costBasis :=
        if r.totalSharesAcquired + shares > 0 then
          ext.numericDiv (r.totalDepositsValue + assetsAfterFees) (r.totalSharesAcquired + shares)
        else 0 }

/-- A redemption takes from a position, and realizes a profit against its cost
basis. -/
def onRedeem (shares assets : ℚ) : Option PositionColumns → PositionColumns
  | none => { shares := -shares, realizedPnl := assets }
  | some r =>
    { r with
      shares := r.shares - shares
      realizedPnl := r.realizedPnl + (assets - shares * r.costBasis) }

end PositionColumns

variable (ext) in
/-- What an event does to the columns of its position. -/
def positionStep (r : Option PositionColumns) : ParsedEvent → Option PositionColumns
  | .deposited _ data =>
    some (PositionColumns.onDeposit ext data.shares.val data.assetsAfterFees.val r)
  | .redeemed _ data => some (PositionColumns.onRedeem data.shares.val data.assets.val r)
  | _ => r

/-- The columns of a row after an event depend on those before it. -/
theorem positionLedger_step_columns (r : Option PositionRow) (e : ParsedEvent) :
    ((positionLedger ext).step r e).map PositionRow.columns
      = positionStep ext (r.map PositionRow.columns) e := by
  cases e <;> cases r <;> rfl

/-- The columns of positions as a read model. -/
def positionColumns (hext : ext.Lawful) : ReadModel ext PositionKey (Option PositionColumns) :=
  (positionRows hext).columns (Option.map PositionRow.columns) (positionStep ext)
    positionLedger_step_columns

/-! ## The shares of active positions -/

/-- What an event does to the shares of its active position. -/
def activeSharesStep (r : Option ℚ) : ParsedEvent → Option ℚ
  | .deposited _ data => some (r.getD 0 + data.shares.val)
  | .redeemed _ data => (r.map fun x => x - data.shares.val).filter fun x => !decide (x ≤ 0)
  | _ => r

/-- The shares of a row after an event depend on those before it. -/
theorem activeLedger_step_shares (r : Option ActiveVaultPositionRow) (e : ParsedEvent) :
    ((activeLedger ext).step r e).map ActiveVaultPositionRow.shares
      = activeSharesStep (r.map ActiveVaultPositionRow.shares) e := by
  cases e with
  | deposited metadata data =>
    cases r with
    | none => exact congrArg some (zero_add _).symm
    | some r => rfl
  | redeemed metadata data =>
    cases r with
    | none => rfl
    | some r =>
      -- the row is pruned exactly if its shares are used up
      by_cases h : r.shares ≤ data.shares.val <;>
        simp [activeLedger, activeSharesStep, ActiveVaultPositionRow.onRedeem,
          ActiveVaultPositionRow.isZero, Option.filter, h]
  | _ => rfl

/-- The shares of active positions as a read model. -/
def activeShares (ext : Externals) : ReadModel ext PositionKey (Option ℚ) :=
  (activePositions ext).columns (Option.map ActiveVaultPositionRow.shares) activeSharesStep
    activeLedger_step_shares
