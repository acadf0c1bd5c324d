import IntuitionCore.Curves.Math
import IntuitionCore.Projections.Repo
import IntuitionCore.Projections.Shard

/-!
# The projections that write the market read models

Five projections write vaults and positions: one for the totals of vaults, one
for positions, one for the index of active positions, and the two that write
the first and the third of these tables in both databases.

A batch is one transaction. Only a price change can fail by itself – its market
cap may not be computable – and it takes the batch with it.
-/

/-- What a projection may fail with. -/
inductive ProjectionError where
  | database (message : String)
  | surreal (message : String)
  | invalidEventData (message : String)
  | missingField (field : String)
  | serialization (message : String)
  | config (message : String)
  | sink (message : String)
  | uniqueConstraintViolation (message : String)
  | circuitOpen (message : String)
  deriving DecidableEq, Repr

variable (ext : Externals)

/-- The market cap of a vault whose totals are given as text. -/
def computeMarketCap (totalSharesRaw sharePriceRaw : String) :
    Except ProjectionError BigDecimal := do
  let totalShares ← Result.okOr (ext.parseU256 totalSharesRaw)
    (.invalidEventData s!"total_shares is not a valid uint256: {totalSharesRaw}")
  let sharePrice ← Result.okOr (ext.parseU256 sharePriceRaw)
    (.invalidEventData s!"share_price is not a valid uint256: {sharePriceRaw}")
  let marketCap ← (Math.marketCap totalShares sharePrice).mapError fun err =>
    .invalidEventData s!"market_cap overflow: {err.message}"
  Result.okOr (ext.parseDecimal (toString marketCap.toNat))
    (.invalidEventData "market_cap is not numeric")

/-- The vault an event is about, if it moves shares. -/
def touchedVault : ParsedEvent → Option VaultKey
  | .deposited _ data => some ⟨data.termId, ext.toString data.curveId⟩
  | .redeemed _ data => some ⟨data.termId, ext.toString data.curveId⟩
  | _ => none

/-! ## Vault totals -/

namespace VaultStateProjection

variable (shardId totalShards : ℕ)

def processDepositedTyped (tx : Db) (data : DepositedRecord) : Db :=
  VaultRepo.upsertVaultOnDeposit tx data.termId (ext.toString data.curveId) data.assetsAfterFees

def processRedeemedTyped (tx : Db) (data : RedeemedRecord) : Db :=
  VaultRepo.upsertVaultOnRedeem tx data.termId (ext.toString data.curveId) data.assets

def processSharePriceChangedTyped (tx : Db) (metadata : EventMetadata)
    (data : SharePriceChangedRecord) : Except ProjectionError Db := do
  let curveId := ext.toString data.curveId
  let marketCap ← computeMarketCap ext (ext.toString data.totalShares)
    (ext.toString data.sharePrice)
  let tx := VaultRepo.updateVaultPrice tx data.termId curveId data.sharePrice data.totalAssets
    data.totalShares marketCap
  let eventId := s!"{metadata.transactionHash}-{metadata.logIndex}-{metadata.eventType}"
  return VaultRepo.insertSharePriceHistory tx eventId data.termId curveId data.sharePrice
    data.totalAssets data.totalShares marketCap metadata.blockNumber metadata.transactionHash
    metadata.blockTimestamp

/-- What the batch loop does with one event. -/
def processEvent (tx : Db) (event : ParsedEvent) : Except ProjectionError Db :=
  match event with
  | .deposited _ data =>
    if Shard.shouldSkipShard ext shardId totalShards data.termId data.curveId then .ok tx
    else .ok (processDepositedTyped ext tx data)
  | .redeemed _ data =>
    if Shard.shouldSkipShard ext shardId totalShards data.termId data.curveId then .ok tx
    else .ok (processRedeemedTyped ext tx data)
  | .sharePriceChanged metadata data =>
    if Shard.shouldSkipShard ext shardId totalShards data.termId data.curveId then .ok tx
    else processSharePriceChangedTyped ext tx metadata data
  | _ => .ok tx

def processParsedBatch (tx : Db) (events : List ParsedEvent) : Except ProjectionError Db :=
  events.foldlM (processEvent ext shardId totalShards) tx

end VaultStateProjection

/-! ## Positions -/

namespace PositionTrackingProjection

variable (shardId totalShards : ℕ)

/-- The price of a change of shares, if there is one. -/
def executionPrice (assets shares : BigDecimal) : BigDecimal :=
  if shares.val > 0 then ext.decimalDiv assets shares else ⟨0, 0⟩

def processDepositedTyped (tx : Db) (metadata : EventMetadata) (data : DepositedRecord) : Db :=
  let curveId := ext.toString data.curveId
  let tx := PositionRepo.upsertPositionOnDeposit ext tx data.receiver data.termId curveId
    data.shares data.assetsAfterFees metadata.blockTimestamp
  let eventId := s!"{metadata.transactionHash}-{metadata.logIndex}-{metadata.eventType}"
  PositionRepo.insertPositionChange tx eventId data.receiver data.termId curveId "Deposited"
    data.shares data.assetsAfterFees ⟨0, 0⟩ (executionPrice ext data.assetsAfterFees data.shares)
    metadata.blockNumber metadata.transactionHash metadata.blockTimestamp

def processRedeemedTyped (tx : Db) (metadata : EventMetadata) (data : RedeemedRecord) : Db :=
  let curveId := ext.toString data.curveId
  let tx := PositionRepo.upsertPositionOnRedeem tx data.receiver data.termId curveId
    data.shares data.assets metadata.blockTimestamp
  let eventId := s!"{metadata.transactionHash}-{metadata.logIndex}-{metadata.eventType}"
  PositionRepo.insertPositionChange tx eventId data.receiver data.termId curveId "Redeemed"
    data.shares.neg ⟨0, 0⟩ data.assets (executionPrice ext data.assets data.shares)
    metadata.blockNumber metadata.transactionHash metadata.blockTimestamp

/-- What the batch loop does with one event. -/
def processEvent (tx : Db) (event : ParsedEvent) : Db :=
  match event with
  | .deposited metadata data =>
    if Shard.shouldSkipShard ext shardId totalShards data.termId data.curveId then tx
    else processDepositedTyped ext tx metadata data
  | .redeemed metadata data =>
    if Shard.shouldSkipShard ext shardId totalShards data.termId data.curveId then tx
    else processRedeemedTyped ext tx metadata data
  | _ => tx

def processParsedBatch (tx : Db) (events : List ParsedEvent) : Db :=
  events.foldl (processEvent ext shardId totalShards) tx

end PositionTrackingProjection

/-! ## The index of active positions -/

namespace VaultHoldersIndexProjection

def processDepositTyped (tx : Db) (data : DepositedRecord) : Db :=
  VaultRepo.upsertPositionOnDeposit tx data.termId (ext.toString data.curveId) data.receiver
    data.shares data.assetsAfterFees

def processRedeemTyped (tx : Db) (data : RedeemedRecord) : Db :=
  let curveId := ext.toString data.curveId
  let tx := VaultRepo.decrementPositionOnRedeem tx data.termId curveId data.sender data.shares
    data.assets
  VaultRepo.pruneZeroPosition tx data.termId curveId data.sender

/-- What the batch loop does with one event. -/
def processEvent (tx : Db) (event : ParsedEvent) : Db :=
  match event with
  | .deposited _ data => processDepositTyped ext tx data
  | .redeemed _ data => processRedeemTyped ext tx data
  | _ => tx

/-- The batch loop, and the holders of every vault it touched. -/
def processParsedBatch (tx : Db) (events : List ParsedEvent) : Db :=
  (events.filterMap (touchedVault ext)).dedup.foldl
    (fun tx k => VaultRepo.refreshHolderCount tx k.termId k.curveId)
    (events.foldl (processEvent ext) tx)

end VaultHoldersIndexProjection

/-! ## Vault totals, in both databases -/

namespace VaultStateDualProjection

variable (shardId totalShards : ℕ) (kgPool : Bool)

/-- The KG writes of an event, if there is a KG pool. -/
def withKg (kgPool : Bool) (tx : Stores) (write : KgDb → KgDb) : Stores :=
  if kgPool then { tx with kg := write tx.kg } else tx

/-- The KG writes leave the legacy database alone. -/
@[simp] theorem withKg_db (tx : Stores) (write : KgDb → KgDb) :
    (withKg kgPool tx write).db = tx.db := by
  cases kgPool <;> rfl

def processDepositedTyped (tx : Stores) (metadata : EventMetadata) (data : DepositedRecord) :
    Stores :=
  let curveId := ext.toString data.curveId
  let tx := withKg kgPool tx fun kg =>
    let kg := KgMarketRepo.upsertKgVaultOnDeposit kg data.termId curveId data.assetsAfterFees
    KgMarketRepo.insertKgMarketEventDeposited kg metadata data
  { tx with db := VaultRepo.upsertVaultOnDeposit tx.db data.termId curveId data.assetsAfterFees }

def processRedeemedTyped (tx : Stores) (metadata : EventMetadata) (data : RedeemedRecord) :
    Stores :=
  let curveId := ext.toString data.curveId
  let tx := withKg kgPool tx fun kg =>
    let kg := KgMarketRepo.upsertKgVaultOnRedeem kg data.termId curveId data.assets
    KgMarketRepo.insertKgMarketEventRedeemed kg metadata data
  { tx with db := VaultRepo.upsertVaultOnRedeem tx.db data.termId curveId data.assets }

def processSharePriceChangedTyped (tx : Stores) (metadata : EventMetadata)
    (data : SharePriceChangedRecord) : Except ProjectionError Stores := do
  let curveId := ext.toString data.curveId
  let marketCap ← computeMarketCap ext (ext.toString data.totalShares)
    (ext.toString data.sharePrice)
  let tx := withKg kgPool tx fun kg =>
    let kg := KgMarketRepo.updateKgVaultPrice kg data.termId curveId data.sharePrice
      data.totalAssets data.totalShares marketCap
    KgMarketRepo.insertKgMarketEventSharePriceChanged kg metadata data
  let db := VaultRepo.updateVaultPrice tx.db data.termId curveId data.sharePrice
    data.totalAssets data.totalShares marketCap
  let eventId := s!"{metadata.transactionHash}-{metadata.logIndex}-SharePriceChanged"
  let db := VaultRepo.insertSharePriceHistory db eventId data.termId curveId data.sharePrice
    data.totalAssets data.totalShares marketCap metadata.blockNumber metadata.transactionHash
    metadata.blockTimestamp
  return { tx with db }

/-- What the batch loop does with one event. -/
def processEvent (tx : Stores) (event : ParsedEvent) : Except ProjectionError Stores :=
  match event with
  | .deposited metadata data =>
    if Shard.shouldSkipShard ext shardId totalShards data.termId data.curveId then .ok tx
    else .ok (processDepositedTyped ext kgPool tx metadata data)
  | .redeemed metadata data =>
    if Shard.shouldSkipShard ext shardId totalShards data.termId data.curveId then .ok tx
    else .ok (processRedeemedTyped ext kgPool tx metadata data)
  | .sharePriceChanged metadata data =>
    if Shard.shouldSkipShard ext shardId totalShards data.termId data.curveId then .ok tx
    else processSharePriceChangedTyped ext kgPool tx metadata data
  | _ => .ok tx

/-- The vault an event of this shard is about, if it moves shares. -/
def touchedShardVault (event : ParsedEvent) : Option VaultKey :=
  match event with
  | .deposited _ data =>
    if Shard.shouldSkipShard ext shardId totalShards data.termId data.curveId then none
    else touchedVault ext event
  | .redeemed _ data =>
    if Shard.shouldSkipShard ext shardId totalShards data.termId data.curveId then none
    else touchedVault ext event
  | _ => none

/-- The batch loop, and the holders of every vault it touched, in both
databases. -/
def processParsedBatch (tx : Stores) (events : List ParsedEvent) :
    Except ProjectionError Stores := do
  let tx ← events.foldlM (processEvent ext shardId totalShards kgPool) tx
  let touched := (events.filterMap (touchedShardVault ext shardId totalShards)).dedup
  let tx := withKg kgPool tx fun kg =>
    touched.foldl (fun kg k => KgMarketRepo.refreshKgHolderCount kg k.termId k.curveId) kg
  let db := touched.foldl (fun db k => VaultRepo.refreshHolderCount db k.termId k.curveId) tx.db
  return { tx with db }

end VaultStateDualProjection

/-! ## The index of active positions, in both databases -/

namespace VaultHoldersIndexDualProjection

open VaultStateDualProjection (withKg)

variable (kgPool : Bool)

def processDepositTyped (tx : Stores) (data : DepositedRecord) : Stores :=
  let curveId := ext.toString data.curveId
  let tx := withKg kgPool tx fun kg =>
    KgMarketRepo.upsertKgPositionOnDeposit kg data.termId curveId data.receiver data.shares
      data.assetsAfterFees
  { tx with
    db := VaultRepo.upsertPositionOnDeposit tx.db data.termId curveId data.receiver data.shares
      data.assetsAfterFees }

def processRedeemTyped (tx : Stores) (data : RedeemedRecord) : Stores :=
  let curveId := ext.toString data.curveId
  let tx := withKg kgPool tx fun kg =>
    let kg := KgMarketRepo.decrementKgPositionOnRedeem kg data.termId curveId data.sender
      data.shares data.assets
    KgMarketRepo.pruneZeroKgPositions kg data.termId curveId data.sender
  let db := VaultRepo.decrementPositionOnRedeem tx.db data.termId curveId data.sender data.shares
    data.assets
  { tx with db := VaultRepo.pruneZeroPosition db data.termId curveId data.sender }

/-- What the batch loop does with one event. -/
def processEvent (tx : Stores) (event : ParsedEvent) : Stores :=
  match event with
  | .deposited _ data => processDepositTyped ext kgPool tx data
  | .redeemed _ data => processRedeemTyped ext kgPool tx data
  | _ => tx

/-- The holders of one vault, in both databases. -/
def refreshHolders (tx : Stores) (k : VaultKey) : Stores :=
  let tx := withKg kgPool tx fun kg => KgMarketRepo.refreshKgHolderCount kg k.termId k.curveId
  { tx with db := VaultRepo.refreshHolderCount tx.db k.termId k.curveId }

/-- The batch loop, and the holders of every vault it touched. -/
def processParsedBatch (tx : Stores) (events : List ParsedEvent) : Stores :=
  (events.filterMap (touchedVault ext)).dedup.foldl (refreshHolders kgPool)
    (events.foldl (processEvent ext kgPool) tx)

end VaultHoldersIndexDualProjection
