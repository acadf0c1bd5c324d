import IntuitionCore.Library.Table
import IntuitionCore.Projections.Events
import Mathlib.Algebra.Order.Field.Rat

/-!
# The tables of the read models

Two databases hold read models of vaults and of the positions in them: the
legacy one, and the KG one it is being migrated to. The rows of a table are
found by their primary key, and `NUMERIC` columns hold numbers. The columns
that record when a row was written are left out.
-/

/-- The identity of a vault: a term and a bonding curve. -/
structure VaultKey where
  termId : String
  curveId : String
  deriving DecidableEq, Repr

/-- The identity of a position: an account in a vault. -/
structure PositionKey where
  accountId : String
  termId : String
  curveId : String
  deriving DecidableEq, Repr

/-- The vault a position is in. -/
def PositionKey.vault (k : PositionKey) : VaultKey := ⟨k.termId, k.curveId⟩

/-- A row of `vault` or of `market.vaults`. -/
structure VaultRow where
  totalShares : ℚ := 0
  currentSharePrice : ℚ := 0
  totalAssets : ℚ := 0
  totalDeposits : ℚ := 0
  totalRedemptions : ℚ := 0
  marketCap : ℚ := 0
  holderCount : ℕ := 0
  deriving DecidableEq, Repr

/-- A row of `position`. -/
structure PositionRow where
  shares : ℚ := 0
  totalDeposits : ℚ := 0
  totalDepositsValue : ℚ := 0
  totalSharesAcquired : ℚ := 0
  costBasis : ℚ := 0
  realizedPnl : ℚ := 0
  /-- The number of deposits that found the row already there. -/
  version : ℕ := 0
  openedAt : Option ℤ := none
  closedAt : Option ℤ := none
  deriving DecidableEq, Repr

/-- A row of `active_vault_position` or of `market.active_vault_position`. -/
structure ActiveVaultPositionRow where
  shares : ℚ := 0
  totalDeposits : ℚ := 0
  totalRedemptions : ℚ := 0
  deriving DecidableEq, Repr

/-- A row of `share_price_history`. -/
structure SharePriceHistoryRow where
  termId : String
  curveId : String
  sharePrice : ℚ
  totalAssets : ℚ
  totalShares : ℚ
  marketCap : ℚ
  blockNumber : ℕ
  transactionHash : String
  deriving DecidableEq, Repr

/-- A row of `position_change`. -/
structure PositionChangeRow where
  accountId : String
  termId : String
  curveId : String
  eventType : String
  sharesDelta : ℚ
  assetsIn : ℚ
  assetsOut : ℚ
  executionPrice : ℚ
  blockNumber : ℕ
  transactionHash : String
  deriving DecidableEq, Repr

/-- A row of `market.events`; its entity is always a vault, and its source
always the chain. -/
structure MarketEventRow where
  entityId : String
  eventType : String
  accountId : Option String
  vaultId : String
  amount : Option ℚ
  price : Option ℚ
  shares : Option ℚ
  direction : Option String
  deriving DecidableEq, Repr

/-- The legacy database. -/
structure Db where
  vault : Table VaultKey VaultRow := ∅
  position : Table PositionKey PositionRow := ∅
  activeVaultPosition : Table PositionKey ActiveVaultPositionRow := ∅
  /-- Keyed by event id and block timestamp. -/
  sharePriceHistory : Table (String × ℤ) SharePriceHistoryRow := ∅
  /-- Keyed by event id and block timestamp. -/
  positionChange : Table (String × ℤ) PositionChangeRow := ∅

/-- The schema `market` of the KG database. -/
structure KgDb where
  vaults : Table VaultKey VaultRow := ∅
  activeVaultPosition : Table PositionKey ActiveVaultPositionRow := ∅
  /-- Keyed by event time and event id. -/
  events : Table (ℤ × String) MarketEventRow := ∅

/-- Both databases. -/
structure Stores where
  db : Db := {}
  kg : KgDb := {}
