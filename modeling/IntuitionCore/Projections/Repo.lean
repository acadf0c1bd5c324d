import IntuitionCore.Projections.Tables

/-!
# The statements that write the read models

Each repository function is one SQL statement, and replaces the row of one key
of one table. An `INSERT … ON CONFLICT DO UPDATE` is a function of the row that
is there, whose value at no row is the inserted one. The statements against the
KG database are those against the legacy one, on the tables of the other
schema; what a statement does to a row is therefore defined once.

Several statements return what they did to the row. Nothing reads the answer.
-/

/-! ## Rows of vaults -/

namespace VaultRow

/-- A deposit adds to the deposits of a vault. -/
def onDeposit (assetsAfterFees : ℚ) : Option VaultRow → VaultRow
  | none => { totalDeposits := assetsAfterFees }
  | some r => { r with totalDeposits := r.totalDeposits + assetsAfterFees }

/-- A redemption adds to the redemptions of a vault, and takes from its
deposits if the vault has a row. -/
def onRedeem (assets : ℚ) : Option VaultRow → VaultRow
  | none => { totalRedemptions := assets }
  | some r =>
    { r with
      totalDeposits := r.totalDeposits - assets
      totalRedemptions := r.totalRedemptions + assets }

/-- A price change overwrites the snapshot of a vault. -/
def updatePrice (sharePrice totalAssets totalShares marketCap : ℚ) : Option VaultRow → VaultRow
  | none => { currentSharePrice := sharePrice, totalAssets, totalShares, marketCap }
  | some r => { r with currentSharePrice := sharePrice, totalAssets, totalShares, marketCap }

end VaultRow

/-- The number of accounts with shares in a vault. -/
def countHolders (a : Table PositionKey ActiveVaultPositionRow) (k : VaultKey) : ℕ :=
  a.count fun p r => p.vault = k ∧ 0 < r.shares

/-- The holders of a vault are counted again, if the vault has a row. -/
def setHolderCount (t : Table VaultKey VaultRow) (a : Table PositionKey ActiveVaultPositionRow)
    (k : VaultKey) : Table VaultKey VaultRow :=
  t.update k fun r => { r with holderCount := countHolders a k }

/-! ## Rows of active positions -/

namespace ActiveVaultPositionRow

/-- A deposit adds to a position. -/
def onDeposit (shares totalDeposits : ℚ) :
    Option ActiveVaultPositionRow → ActiveVaultPositionRow
  | none => { shares, totalDeposits }
  | some r =>
    { r with
      shares := r.shares + shares
      totalDeposits := r.totalDeposits + totalDeposits }

/-- A redemption takes from a position. -/
def onRedeem (shares totalRedemptions : ℚ) (r : ActiveVaultPositionRow) :
    ActiveVaultPositionRow :=
  { r with
    shares := r.shares - shares
    totalRedemptions := r.totalRedemptions + totalRedemptions }

/-- A position with no shares left is deleted. -/
def isZero (r : ActiveVaultPositionRow) : Bool := r.shares ≤ 0

end ActiveVaultPositionRow

/-! ## Rows of positions -/

namespace PositionRow

variable (ext : Externals)

/-- A deposit adds to a position, and its cost basis is computed again. -/
def onDeposit (shares assetsAfterFees : ℚ) (blockTimestamp : ℤ) : Option PositionRow → PositionRow
  | none =>
    { shares
      totalDeposits := assetsAfterFees
      totalDepositsValue := assetsAfterFees
      totalSharesAcquired := shares
      costBasis := if shares > 0 then ext.numericDiv assetsAfterFees shares else 0
      openedAt := some blockTimestamp }
  | some r =>
    { r with
      shares := r.shares + shares
      totalDeposits := r.totalDeposits + assetsAfterFees
      totalDepositsValue := r.totalDepositsValue + assetsAfterFees
      totalSharesAcquired := r.totalSharesAcquired + shares
      costBasis :=
        if r.totalSharesAcquired + shares > 0 then
          ext.numericDiv (r.totalDepositsValue + assetsAfterFees) (r.totalSharesAcquired + shares)
        else 0
      version := r.version + 1
      closedAt := none }

/-- A redemption takes from a position, and realizes a profit against its cost
basis; without a position it leaves a stub. -/
def onRedeem (shares assets : ℚ) (blockTimestamp : ℤ) : Option PositionRow → PositionRow
  | none => { shares := -shares, realizedPnl := assets, openedAt := some blockTimestamp }
  | some r =>
    { r with
      shares := r.shares - shares
      realizedPnl := r.realizedPnl + (assets - shares * r.costBasis)
      closedAt := if r.shares - shares ≤ 0 then some blockTimestamp else r.closedAt }

end PositionRow

/-! ## The legacy database -/

namespace VaultRepo

variable (tx : Db) (termId curveId : String)

def upsertVaultOnDeposit (assetsAfterFees : BigDecimal) : Db :=
  { tx with vault := tx.vault.upsert ⟨termId, curveId⟩ (VaultRow.onDeposit assetsAfterFees.val) }

def upsertVaultOnRedeem (assets : BigDecimal) : Db :=
  { tx with vault := tx.vault.upsert ⟨termId, curveId⟩ (VaultRow.onRedeem assets.val) }

def updateVaultPrice (sharePrice totalAssets totalShares marketCap : BigDecimal) : Db :=
  { tx with
    vault := tx.vault.upsert ⟨termId, curveId⟩
      (VaultRow.updatePrice sharePrice.val totalAssets.val totalShares.val marketCap.val) }

def insertSharePriceHistory (tx : Db) (eventId termId curveId : String)
    (sharePrice totalAssets totalShares marketCap : BigDecimal) (blockNumber : ℕ)
    (transactionHash : String) (ts : ℤ) : Db :=
  { tx with
    sharePriceHistory := tx.sharePriceHistory.insertIfAbsent (eventId, ts)
      { termId, curveId, sharePrice := sharePrice.val, totalAssets := totalAssets.val,
        totalShares := totalShares.val, marketCap := marketCap.val, blockNumber,
        transactionHash } }

def upsertPositionOnDeposit (accountId : String) (shares totalDeposits : BigDecimal) : Db :=
  { tx with
    activeVaultPosition := tx.activeVaultPosition.upsert ⟨accountId, termId, curveId⟩
      (ActiveVaultPositionRow.onDeposit shares.val totalDeposits.val) }

def decrementPositionOnRedeem (accountId : String) (shares totalRedemptions : BigDecimal) : Db :=
  { tx with
    activeVaultPosition := tx.activeVaultPosition.update ⟨accountId, termId, curveId⟩
      (ActiveVaultPositionRow.onRedeem shares.val totalRedemptions.val) }

def pruneZeroPosition (accountId : String) : Db :=
  { tx with
    activeVaultPosition := tx.activeVaultPosition.deleteWhere ⟨accountId, termId, curveId⟩
      ActiveVaultPositionRow.isZero }

def refreshHolderCount : Db :=
  { tx with
    vault := setHolderCount tx.vault tx.activeVaultPosition ⟨termId, curveId⟩ }

end VaultRepo

namespace PositionRepo

variable (ext : Externals) (tx : Db) (accountId termId curveId : String)

def upsertPositionOnDeposit (shares assetsAfterFees : BigDecimal) (blockTimestamp : ℤ) : Db :=
  { tx with
    position := tx.position.upsert ⟨accountId, termId, curveId⟩
      (PositionRow.onDeposit ext shares.val assetsAfterFees.val blockTimestamp) }

def upsertPositionOnRedeem (shares assets : BigDecimal) (blockTimestamp : ℤ) : Db :=
  { tx with
    position := tx.position.upsert ⟨accountId, termId, curveId⟩
      (PositionRow.onRedeem shares.val assets.val blockTimestamp) }

def insertPositionChange (tx : Db) (eventId accountId termId curveId eventType : String)
    (sharesDelta assetsIn assetsOut executionPrice : BigDecimal) (blockNumber : ℕ)
    (transactionHash : String) (ts : ℤ) : Db :=
  { tx with
    positionChange := tx.positionChange.insertIfAbsent (eventId, ts)
      { accountId, termId, curveId, eventType, sharesDelta := sharesDelta.val,
        assetsIn := assetsIn.val, assetsOut := assetsOut.val,
        executionPrice := executionPrice.val, blockNumber, transactionHash } }

end PositionRepo

/-! ## The KG database -/

namespace KgMarketRepo

variable (tx : KgDb) (termId curveId : String)

def upsertKgVaultOnDeposit (assetsAfterFees : BigDecimal) : KgDb :=
  { tx with vaults := tx.vaults.upsert ⟨termId, curveId⟩ (VaultRow.onDeposit assetsAfterFees.val) }

def upsertKgVaultOnRedeem (assets : BigDecimal) : KgDb :=
  { tx with vaults := tx.vaults.upsert ⟨termId, curveId⟩ (VaultRow.onRedeem assets.val) }

def updateKgVaultPrice (sharePrice totalAssets totalShares marketCap : BigDecimal) : KgDb :=
  { tx with
    vaults := tx.vaults.upsert ⟨termId, curveId⟩
      (VaultRow.updatePrice sharePrice.val totalAssets.val totalShares.val marketCap.val) }

def upsertKgPositionOnDeposit (accountId : String) (shares totalDeposits : BigDecimal) : KgDb :=
  { tx with
    activeVaultPosition := tx.activeVaultPosition.upsert ⟨accountId, termId, curveId⟩
      (ActiveVaultPositionRow.onDeposit shares.val totalDeposits.val) }

def decrementKgPositionOnRedeem (accountId : String) (shares totalRedemptions : BigDecimal) :
    KgDb :=
  { tx with
    activeVaultPosition := tx.activeVaultPosition.update ⟨accountId, termId, curveId⟩
      (ActiveVaultPositionRow.onRedeem shares.val totalRedemptions.val) }

def pruneZeroKgPositions (accountId : String) : KgDb :=
  { tx with
    activeVaultPosition := tx.activeVaultPosition.deleteWhere ⟨accountId, termId, curveId⟩
      ActiveVaultPositionRow.isZero }

def refreshKgHolderCount : KgDb :=
  { tx with
    vaults := setHolderCount tx.vaults tx.activeVaultPosition ⟨termId, curveId⟩ }

/-- Insert a market event under its time and log, unless it is there. -/
def insertMarketEvent (metadata : EventMetadata) (row : MarketEventRow) : KgDb :=
  { tx with
    events := tx.events.insertIfAbsent
      (metadata.blockTimestamp, s!"{metadata.transactionHash}:{metadata.logIndex}") row }

def insertKgMarketEventDeposited (metadata : EventMetadata) (data : DepositedRecord) : KgDb :=
  insertMarketEvent tx metadata
    { entityId := data.termId, eventType := "deposited", accountId := some data.receiver,
      vaultId := data.termId, amount := some data.assetsAfterFees.val, price := none,
      shares := some data.shares.val, direction := some "in" }

def insertKgMarketEventRedeemed (metadata : EventMetadata) (data : RedeemedRecord) : KgDb :=
  insertMarketEvent tx metadata
    { entityId := data.termId, eventType := "redeemed", accountId := some data.sender,
      vaultId := data.termId, amount := some data.assets.val, price := none,
      shares := some data.shares.val, direction := some "out" }

def insertKgMarketEventSharePriceChanged (metadata : EventMetadata)
    (data : SharePriceChangedRecord) : KgDb :=
  insertMarketEvent tx metadata
    { entityId := data.termId, eventType := "share_price_changed", accountId := none,
      vaultId := data.termId, amount := none, price := some data.sharePrice.val,
      shares := some data.totalShares.val, direction := none }

end KgMarketRepo
