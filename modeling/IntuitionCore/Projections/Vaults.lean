import IntuitionCore.Projections.ReadModel

/-!
# The rows of vaults

The row of a vault, except for its number of holders, is what the deposits,
the redemptions and the price changes of the vault make of it, one after the
other. Two projections maintain it, each for the vaults of its shard:
`vault_state`, and `vault_state:dual`, whose writes in the legacy database are
the same. Two others count the holders, and so leave this part of a row alone.
-/

open Result

/-- A row without its number of holders. -/
def VaultRow.withoutHolders (r : VaultRow) : VaultRow := { r with holderCount := 0 }

variable (ext : Externals)

/-- The vault whose row an event belongs to. -/
def vaultOf : ParsedEvent → Option VaultKey
  | .deposited _ data => some ⟨data.termId, ext.toString data.curveId⟩
  | .redeemed _ data => some ⟨data.termId, ext.toString data.curveId⟩
  | .sharePriceChanged _ data => some ⟨data.termId, ext.toString data.curveId⟩
  | _ => none

/-- What the rows of vaults are. A price change whose market cap cannot be
computed is never applied. -/
def vaultLedger : Ledger ParsedEvent VaultKey (Option VaultRow) where
  key := vaultOf ext
  init := none
  step r
    | .deposited _ data => some (VaultRow.onDeposit data.assetsAfterFees.val r)
    | .redeemed _ data => some (VaultRow.onRedeem data.assets.val r)
    | .sharePriceChanged _ data =>
      match computeMarketCap ext (ext.toString data.totalShares) (ext.toString data.sharePrice) with
      | .ok marketCap => some (VaultRow.updatePrice data.sharePrice.val data.totalAssets.val
          data.totalShares.val marketCap.val r)
      | .error _ => r
    | _ => r

/-- The row of a vault in a table, without its number of holders. -/
def vaultRow (t : Table VaultKey VaultRow) (k : VaultKey) : Option VaultRow :=
  (t.lookup k).map VaultRow.withoutHolders

variable {ext} {t : Table VaultKey VaultRow} {k k' : VaultKey} {i n : ℕ} {kg : Bool}
  {e : ParsedEvent}

theorem vaultLedger_step_sharePriceChanged {data : SharePriceChangedRecord}
    {marketCap : BigDecimal} (metadata : EventMetadata)
    (h : computeMarketCap ext (ext.toString data.totalShares) (ext.toString data.sharePrice)
      = .ok marketCap) (r : Option VaultRow) :
    (vaultLedger ext).step r (.sharePriceChanged metadata data)
      = some (VaultRow.updatePrice data.sharePrice.val data.totalAssets.val data.totalShares.val
          marketCap.val r) := by
  show (match computeMarketCap ext _ _ with | .ok _ => some _ | .error _ => r) = _
  rw [h]

theorem vaultLedger_step_sharePriceChanged_of_error {data : SharePriceChangedRecord}
    {err : ProjectionError} (metadata : EventMetadata)
    (h : computeMarketCap ext (ext.toString data.totalShares) (ext.toString data.sharePrice)
      = .error err) (r : Option VaultRow) :
    (vaultLedger ext).step r (.sharePriceChanged metadata data) = r := by
  show (match computeMarketCap ext _ _ with | .ok _ => some _ | .error _ => r) = _
  rw [h]

/-- What happens to a vault after it has a row leaves it one. -/
theorem vaultLedger_step_ne_none {r : Option VaultRow} (e : ParsedEvent) (h : r ≠ none) :
    (vaultLedger ext).step r e ≠ none := by
  cases e with
  | sharePriceChanged metadata data =>
    show (match computeMarketCap ext _ _ with | .ok _ => some _ | .error _ => r) ≠ none
    split
    · exact Option.some_ne_none _
    · exact h
  | deposited | redeemed => exact Option.some_ne_none _
  | _ => exact h

/-- What the ledger does to a row does not depend on the number of holders. -/
theorem vaultLedger_step_withoutHolders (r : Option VaultRow) (e : ParsedEvent) :
    ((vaultLedger ext).step r e).map VaultRow.withoutHolders
      = (vaultLedger ext).step (r.map VaultRow.withoutHolders) e := by
  cases e with
  | sharePriceChanged metadata data =>
    show Option.map _ (match computeMarketCap ext _ _ with | .ok _ => some _ | .error _ => r) = _
    show _ = (match computeMarketCap ext _ _ with | .ok _ => some _ | .error _ => _)
    cases computeMarketCap ext (ext.toString data.totalShares) (ext.toString data.sharePrice) <;>
      cases r <;> rfl
  | _ => cases r <;> rfl

/-- Counting holders leaves the rest of every row alone. -/
theorem vaultRow_setHolderCount (a : Table PositionKey ActiveVaultPositionRow) :
    vaultRow (setHolderCount t a k') k = vaultRow t k := by
  unfold vaultRow setHolderCount
  rw [Table.lookup_update]
  by_cases h : k = k'
  · subst h
    rw [if_pos rfl, Option.map_map]
    rfl
  · rw [if_neg h]

/-! ## The projections that maintain the rows -/

/-- The vaults of a shard. -/
def ownsShardVault (ext : Externals) (i n : ℕ) (k : VaultKey) : Bool :=
  Shard.ownsVault ext i n k.termId k.curveId

/-- Whether a shard does not skip an event of a vault. -/
def ParsedEvent.isOfShard (ext : Externals) (shardId totalShards : ℕ) : ParsedEvent → Bool
  | .deposited _ data => !Shard.shouldSkipShard ext shardId totalShards data.termId data.curveId
  | .redeemed _ data => !Shard.shouldSkipShard ext shardId totalShards data.termId data.curveId
  | .sharePriceChanged _ data =>
    !Shard.shouldSkipShard ext shardId totalShards data.termId data.curveId
  | _ => false

/-- An event is of the shard that owns its vault. -/
theorem ParsedEvent.isOfShard_eq (hext : ext.Lawful) :
    e.isOfShard ext i n = (vaultOf ext e).any (ownsShardVault ext i n) := by
  cases e with
  | deposited metadata data | redeemed metadata data | sharePriceChanged metadata data =>
    rw [ParsedEvent.isOfShard, Shard.shouldSkipShard_eq hext, Bool.not_not]
    rfl
  | _ => rfl

/-- **`vault_state` records an event in the table of vaults.** -/
theorem VaultStateProjection.vault_processEvent (hext : ext.Lawful) {tx tx' : Db}
    (h : VaultStateProjection.processEvent ext i n tx e = .ok tx') :
    tx'.vault = tx.vault.record (vaultLedger ext) (ownsShardVault ext i n) e := by
  cases e with
  | deposited metadata data | redeemed metadata data =>
    rw [VaultStateProjection.processEvent, Shard.shouldSkipShard_eq hext] at h
    show _ = if Shard.ownsVault ext i n data.termId (ext.toString data.curveId) then _ else _
    cases hown : Shard.ownsVault ext i n data.termId (ext.toString data.curveId) <;>
      rw [hown] at h <;> cases h <;> rfl
  | sharePriceChanged metadata data =>
    rw [VaultStateProjection.processEvent, Shard.shouldSkipShard_eq hext] at h
    show _ = if Shard.ownsVault ext i n data.termId (ext.toString data.curveId) then _ else _
    cases hown : Shard.ownsVault ext i n data.termId (ext.toString data.curveId) with
    | false => rw [hown] at h; cases h; rfl
    | true =>
      rw [hown] at h
      obtain ⟨marketCap, hcap, h⟩ := Result.bind_eq_ok.mp h
      cases h
      simp only [vaultLedger_step_sharePriceChanged metadata hcap]
      rfl
  | _ => cases h; rfl

/-- **`vault_state:dual` records an event in the legacy table of vaults.** -/
theorem VaultStateDualProjection.vault_processEvent (hext : ext.Lawful) {tx tx' : Stores}
    (h : VaultStateDualProjection.processEvent ext i n kg tx e = .ok tx') :
    tx'.db.vault = tx.db.vault.record (vaultLedger ext) (ownsShardVault ext i n) e := by
  cases e with
  | deposited metadata data | redeemed metadata data =>
    rw [VaultStateDualProjection.processEvent, Shard.shouldSkipShard_eq hext] at h
    show _ = if Shard.ownsVault ext i n data.termId (ext.toString data.curveId) then _ else _
    cases hown : Shard.ownsVault ext i n data.termId (ext.toString data.curveId) with
    | false => rw [hown] at h; cases h; rfl
    | true =>
      rw [hown] at h
      cases h
      show Table.upsert (VaultStateDualProjection.withKg kg tx _).db.vault _ _ = _
      rw [withKg_db]
      rfl
  | sharePriceChanged metadata data =>
    rw [VaultStateDualProjection.processEvent, Shard.shouldSkipShard_eq hext] at h
    show _ = if Shard.ownsVault ext i n data.termId (ext.toString data.curveId) then _ else _
    cases hown : Shard.ownsVault ext i n data.termId (ext.toString data.curveId) with
    | false => rw [hown] at h; cases h; rfl
    | true =>
      rw [hown] at h
      obtain ⟨marketCap, hcap, h⟩ := Result.bind_eq_ok.mp h
      cases h
      show Table.upsert (VaultStateDualProjection.withKg kg tx _).db.vault _ _ = _
      simp only [vaultLedger_step_sharePriceChanged metadata hcap, withKg_db]
      rfl
  | _ => cases h; rfl

theorem vaultRow_record (own : VaultKey → Bool) :
    vaultRow (t.record (vaultLedger ext) own e) k
      = if own k && (vaultLedger ext).concerns k e then (vaultLedger ext).step (vaultRow t k) e
        else vaultRow t k := by
  unfold vaultRow
  rw [Table.lookup_record, apply_ite (Option.map VaultRow.withoutHolders),
    vaultLedger_step_withoutHolders]

/-- Counting the holders of several vaults leaves the rest of every row alone. -/
theorem vaultRow_refreshHolderCount (ks : List VaultKey) (tx : Db) :
    vaultRow (ks.foldl (fun tx k => VaultRepo.refreshHolderCount tx k.termId k.curveId) tx).vault k
      = vaultRow tx.vault k :=
  foldl_keeps (g := fun tx : Db => vaultRow tx.vault k)
    (fun _ _ => vaultRow_setHolderCount _) ks tx

/-! ## The projections that leave the rows alone -/

theorem PositionTrackingProjection.vault_processEvent (tx : Db) (e : ParsedEvent) :
    (PositionTrackingProjection.processEvent ext i n tx e).vault = tx.vault := by
  cases e with
  | deposited metadata data | redeemed metadata data =>
    rw [PositionTrackingProjection.processEvent]
    split <;> rfl
  | _ => rfl

theorem VaultHoldersIndexProjection.vault_processEvent (tx : Db) (e : ParsedEvent) :
    (VaultHoldersIndexProjection.processEvent ext tx e).vault = tx.vault := by
  cases e <;> rfl

theorem VaultHoldersIndexDualProjection.vault_processEvent (tx : Stores) (e : ParsedEvent) :
    (VaultHoldersIndexDualProjection.processEvent ext kg tx e).db.vault = tx.db.vault := by
  cases e <;> cases kg <;> rfl

/-- The projections that maintain the row of a vault. -/
def ownsVaultRow (ext : Externals) : PgProjection → VaultKey → Bool
  | .vaultState i n => ownsShardVault ext i n
  | .vaultStateDual i n _ => ownsShardVault ext i n
  | _ => fun _ => false

theorem name_of_ownsVaultRow {p : PgProjection} (h : ownsVaultRow ext p k = true) :
    p.name = "vault_state" ∨ p.name = "vault_state:dual" := by
  cases p with
  | vaultState => exact .inl rfl
  | vaultStateDual => exact .inr rfl
  | _ => cases h

/-- The writer of a vault's row is the one of its shard. -/
theorem ownsVaultRow_iff {p : PgProjection} (hp : p.Fits n kg)
    (hname : p.name = "vault_state" ∨ p.name = "vault_state:dual") :
    ownsVaultRow ext p k = true ↔ p.index = Shard.shardOfVault ext n k.termId k.curveId := by
  cases p with
  | vaultState i m =>
    obtain ⟨hi, rfl⟩ := hp
    exact (Shard.ownsVault_iff hi _ _).trans eq_comm
  | vaultStateDual i m kg' =>
    obtain ⟨hi, rfl, -⟩ := hp
    exact (Shard.ownsVault_iff hi _ _).trans eq_comm
  | _ => exact absurd hname (by simp [PgProjection.name])

/-- **A batch is applied to the vaults its projection owns.** -/
theorem vaultRow_processParsedBatch (hext : ext.Lawful) {p : PgProjection} {pool pool' : Stores}
    {events : List ParsedEvent} (h : p.processParsedBatch ext pool events = .ok pool')
    (k : VaultKey) :
    vaultRow pool'.db.vault k
      = if ownsVaultRow ext p k then (vaultLedger ext).apply k (vaultRow pool.db.vault k) events
        else vaultRow pool.db.vault k := by
  cases p with
  | vaultState i n =>
    obtain ⟨db, hdb, h⟩ := bind_eq_ok.mp h
    cases h
    refine (vaultLedger ext).foldlM_row (v := fun tx : Db => vaultRow tx.vault k)
      (fun tx e tx' htx => ?_) hdb
    rw [VaultStateProjection.vault_processEvent hext htx]
    exact vaultRow_record _
  | vaultStateDual i n kg =>
    obtain ⟨tx, htx, h⟩ := bind_eq_ok.mp h
    cases h
    show vaultRow (List.foldl _ (VaultStateDualProjection.withKg kg tx _).db _).vault k = _
    rw [vaultRow_refreshHolderCount, VaultStateDualProjection.withKg_db]
    refine (vaultLedger ext).foldlM_row (v := fun tx : Stores => vaultRow tx.db.vault k)
      (fun tx e tx' htx => ?_) htx
    rw [VaultStateDualProjection.vault_processEvent hext htx]
    exact vaultRow_record _
  | positionTracking i n =>
    cases h
    exact congrArg (vaultRow · k)
      (foldl_keeps (g := Db.vault) PositionTrackingProjection.vault_processEvent events pool.db)
  | vaultHoldersIndex =>
    cases h
    refine (vaultRow_refreshHolderCount _ _).trans ?_
    exact congrArg (vaultRow · k)
      (foldl_keeps (g := Db.vault) VaultHoldersIndexProjection.vault_processEvent events pool.db)
  | vaultHoldersIndexDual kg =>
    cases h
    refine (foldl_keeps (g := fun tx : Stores => vaultRow tx.db.vault k)
      (fun tx k' => ?_) _ _).trans
      (congrArg (vaultRow · k) (foldl_keeps (g := fun tx : Stores => tx.db.vault)
        VaultHoldersIndexDualProjection.vault_processEvent events pool))
    cases kg <;> exact vaultRow_setHolderCount _
  | _ => cases h; rfl

/-- The rows of vaults as a read model. -/
def vaultRows (hext : ext.Lawful) : ReadModel ext VaultKey (Option VaultRow) where
  ledger := vaultLedger ext
  rows pool := vaultRow pool.db.vault
  owns := ownsVaultRow ext
  rows_start _ := rfl
  rows_process := vaultRow_processParsedBatch hext
  consumed {p k e} hp hk := by
    have htype : e.type? ∈ [some .deposited, some .redeemed, some .sharePriceChanged] := by
      cases e <;> first
        | exact absurd (of_decide_eq_true hk) (Option.some_ne_none _).symm
        | simp [ParsedEvent.type?]
    have hp' : p.eventTypes = [.deposited, .redeemed, .sharePriceChanged] := by
      cases p <;> first
        | rfl
        | exact absurd hp Bool.false_ne_true
    rw [hp']
    simpa [eq_comm] using htype

/-! ## The totals of vaults -/

/-- The columns of a vault that its deposits and redemptions add up in. -/
structure Totals where
  totalDeposits : ℚ := 0
  totalRedemptions : ℚ := 0
  deriving DecidableEq, Repr

namespace Totals

/-- A deposit adds to the deposits. -/
def onDeposit (assetsAfterFees : ℚ) : Option Totals → Totals
  | none => { totalDeposits := assetsAfterFees }
  | some t => { t with totalDeposits := t.totalDeposits + assetsAfterFees }

/-- A redemption adds to the redemptions, and takes from the deposits of a
vault that has a row. -/
def onRedeem (assets : ℚ) : Option Totals → Totals
  | none => { totalRedemptions := assets }
  | some t =>
    { totalDeposits := t.totalDeposits - assets
      totalRedemptions := t.totalRedemptions + assets }

end Totals

def VaultRow.totals (r : VaultRow) : Totals := ⟨r.totalDeposits, r.totalRedemptions⟩

variable (ext) in
/-- What an event does to the totals of its vault: a price change only sees to
it that there is a row. -/
def totalsStep (r : Option Totals) : ParsedEvent → Option Totals
  | .deposited _ data => some (Totals.onDeposit data.assetsAfterFees.val r)
  | .redeemed _ data => some (Totals.onRedeem data.assets.val r)
  | .sharePriceChanged _ data =>
    match computeMarketCap ext (ext.toString data.totalShares) (ext.toString data.sharePrice) with
    | .ok _ => some (r.getD {})
    | .error _ => r
  | _ => r

/-- The totals of a row after an event depend on those before it. -/
theorem vaultLedger_step_totals (r : Option VaultRow) (e : ParsedEvent) :
    ((vaultLedger ext).step r e).map VaultRow.totals
      = totalsStep ext (r.map VaultRow.totals) e := by
  cases e with
  | sharePriceChanged metadata data =>
    show Option.map _ (match computeMarketCap ext _ _ with | .ok _ => some _ | .error _ => r)
      = (match computeMarketCap ext _ _ with | .ok _ => some _ | .error _ => _)
    cases computeMarketCap ext (ext.toString data.totalShares) (ext.toString data.sharePrice) <;>
      cases r <;> rfl
  | _ => cases r <;> rfl

variable (ext) in
/-- What the totals of vaults are. -/
def totalsLedger : Ledger ParsedEvent VaultKey (Option Totals) where
  key := vaultOf ext
  init := none
  step := totalsStep ext

/-- The totals of vaults as a read model. -/
def vaultTotals (hext : ext.Lawful) : ReadModel ext VaultKey (Option Totals) :=
  (vaultRows hext).columns (Option.map VaultRow.totals) (totalsStep ext) vaultLedger_step_totals

theorem vaultTotals_rows (hext : ext.Lawful) (pool : Stores) (k : VaultKey) :
    (vaultTotals hext).rows pool k = (pool.db.vault.lookup k).map VaultRow.totals := by
  show ((pool.db.vault.lookup k).map VaultRow.withoutHolders).map VaultRow.totals = _
  rw [Option.map_map]
  rfl

/-! ## A deposit that is counted twice -/

/-- The vault of the first deposit. -/
def firstVault (ext : Externals) : VaultKey := ⟨"0x07", ext.toString ⟨1, 0⟩⟩

theorem concerns_firstDeposit :
    (totalsLedger ext).concerns (firstVault ext) (ParsedEvent.parseOrUnknown firstDeposit) = true :=
  decide_eq_true rfl

variable (ext) in
/-- The first deposit adds ten. -/
theorem totalDeposits_firstDeposit (r : Option Totals) :
    ((totalsStep ext r (ParsedEvent.parseOrUnknown firstDeposit)).map Totals.totalDeposits).getD 0
      = (r.map Totals.totalDeposits).getD 0 + 10 := by
  cases r with
  | none => exact val_ten.trans (zero_add 10).symm
  | some t => exact congrArg (t.totalDeposits + ·) val_ten

/-- Twice ten is not ten. -/
theorem totalsStep_firstDeposit_twice (r : Option Totals) :
    totalsStep ext (totalsStep ext r (ParsedEvent.parseOrUnknown firstDeposit))
        (ParsedEvent.parseOrUnknown firstDeposit)
      ≠ totalsStep ext r (ParsedEvent.parseOrUnknown firstDeposit) := by
  intro h
  have hdeposits := congrArg (fun r => (r.map Totals.totalDeposits).getD 0) h
  simp only [totalDeposits_firstDeposit] at hdeposits
  linarith
