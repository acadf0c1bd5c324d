import IntuitionCore.Projections.Repo
import Mathlib.Algebra.BigOperators.Group.Finset.Basic
import Mathlib.Algebra.Order.Ring.Rat

/-!
# The leaderboard tables

The profit of an account is computed from its positions and from the prices of
the vaults they are in, and is kept in a table of its own. Which accounts have
to be computed again is kept in two dirty sets: accounts that were marked
themselves, and vaults, which stand for the accounts that are active in them.

One projection marks, from events. Another one drains the dirty sets and
computes. What is here is what either does to the tables; when the second does
what is left to its transactions.

An amount is bound as a text that the statement casts to a number. The text is
printed from a number just before, so the two conversions are left out.
-/

/-- A row of `dirty_account`. -/
structure DirtyAccountRow where
  reason : String
  deriving DecidableEq, Repr

/-- A row of `account_stats`. -/
structure AccountStatsRow where
  totalDeposits : ℚ := 0
  totalRedemptions : ℚ := 0
  totalVolume : ℚ := 0
  lastActivityAt : Option ℤ := none
  deriving DecidableEq, Repr

/-- What is computed for an account. -/
structure AccountPnlRow where
  totalDeposits : ℚ
  currentEquityValue : ℚ
  realizedPnl : ℚ
  unrealizedPnl : ℚ
  winningPositions : ℕ
  losingPositions : ℕ
  deriving DecidableEq, Repr

/-- A row of `account_pnl_state`. -/
structure AccountPnlStateRow where
  totalDeposits : ℚ
  totalRedemptions : ℚ
  realizedPnl : ℚ
  unrealizedPnl : ℚ
  totalPnl : ℚ
  currentEquityValue : ℚ
  winningPositions : ℕ
  losingPositions : ℕ
  deriving DecidableEq, Repr

/-- A row of `account_pnl_snapshot`. -/
structure AccountPnlSnapshotRow where
  accountId : String
  totalDeposits : ℚ
  totalRedemptions : ℚ
  realizedPnl : ℚ
  unrealizedPnl : ℚ
  totalPnl : ℚ
  currentEquityValue : ℚ
  ts : ℤ
  deriving DecidableEq, Repr

/-- The tables of the leaderboard. -/
structure LeaderboardDb where
  dirtyAccount : Table String DirtyAccountRow := ∅
  dirtyVault : Table VaultKey Unit := ∅
  accountStats : Table String AccountStatsRow := ∅
  accountPnlState : Table String AccountPnlStateRow := ∅
  /-- A table without a primary key. -/
  accountPnlSnapshot : List AccountPnlSnapshotRow := []

/-! ## Marking -/

namespace LeaderboardMarkerProjection

variable (ext : Externals) (tx : LeaderboardDb)

/-- Mark an account, or mark it for another reason. -/
def markDirtyAccount (accountId reason : String) : LeaderboardDb :=
  { tx with dirtyAccount := tx.dirtyAccount.upsert accountId fun _ => { reason } }

/-- Mark a vault. -/
def markDirtyVault (termId curveId : String) : LeaderboardDb :=
  { tx with dirtyVault := tx.dirtyVault.upsert ⟨termId, curveId⟩ fun _ => () }

variable (accountId : String) (amount : BigDecimal) (blockTimestamp : ℤ)

def updateAccountStatsDeposit : LeaderboardDb :=
  { tx with
    accountStats := tx.accountStats.upsert accountId fun row =>
      let stats := row.getD {}
      { stats with
        totalDeposits := stats.totalDeposits + amount.val
        totalVolume := stats.totalVolume + amount.val
        lastActivityAt := some blockTimestamp } }

def updateAccountStatsVolume : LeaderboardDb :=
  { tx with
    accountStats := tx.accountStats.upsert accountId fun row =>
      let stats := row.getD {}
      { stats with
        totalVolume := stats.totalVolume + amount.val
        lastActivityAt := some blockTimestamp } }

def updateAccountStatsRedeem : LeaderboardDb :=
  { tx with
    accountStats := tx.accountStats.upsert accountId fun row =>
      let stats := row.getD {}
      { stats with
        totalRedemptions := stats.totalRedemptions + amount.val
        totalVolume := stats.totalVolume + amount.val
        lastActivityAt := some blockTimestamp } }

variable (metadata : EventMetadata)

/-- A deposit marks both its accounts. Only the receiver deposited; the sender
of somebody else's deposit has its volume. -/
def handleDepositedTyped (data : DepositedRecord) : LeaderboardDb :=
  let tx := markDirtyAccount tx data.sender "deposited"
  let tx := markDirtyAccount tx data.receiver "deposited"
  if data.sender = data.receiver then
    updateAccountStatsDeposit tx data.sender data.assetsAfterFees metadata.blockTimestamp
  else
    let tx := updateAccountStatsVolume tx data.sender data.assetsAfterFees metadata.blockTimestamp
    updateAccountStatsDeposit tx data.receiver data.assetsAfterFees metadata.blockTimestamp

/-- A redemption marks both its accounts, and counts for the sender. -/
def handleRedeemedTyped (data : RedeemedRecord) : LeaderboardDb :=
  let tx := markDirtyAccount tx data.sender "redeemed"
  let tx := markDirtyAccount tx data.receiver "redeemed"
  updateAccountStatsRedeem tx data.sender data.assets metadata.blockTimestamp

/-- A price change marks its vault. -/
def handleSharePriceChangedTyped (data : SharePriceChangedRecord) : LeaderboardDb :=
  markDirtyVault tx data.termId (ext.toString data.curveId)

/-- What the batch loop does with one event. -/
def processEvent (tx : LeaderboardDb) (event : ParsedEvent) : LeaderboardDb :=
  match event with
  | .deposited metadata data => handleDepositedTyped tx metadata data
  | .redeemed metadata data => handleRedeemedTyped tx metadata data
  | .sharePriceChanged _ data => handleSharePriceChangedTyped ext tx data
  | _ => tx

def processParsedBatch (tx : LeaderboardDb) (events : List ParsedEvent) : LeaderboardDb :=
  events.foldl (processEvent ext) tx

/-! ## What a batch marks -/

/-- The accounts an event marks. -/
def markedAccounts : ParsedEvent → Finset String
  | .deposited _ data => {data.sender, data.receiver}
  | .redeemed _ data => {data.sender, data.receiver}
  | _ => ∅

/-- The vault an event marks. -/
def markedVault : ParsedEvent → Option VaultKey
  | .sharePriceChanged _ data => some ⟨data.termId, ext.toString data.curveId⟩
  | _ => none

end LeaderboardMarkerProjection

/-! ## Draining -/

namespace LeaderboardRepo

/-- Delete marks of vaults. -/
def deleteDirtyVaults (tx : LeaderboardDb) (vaults : Finset VaultKey) : LeaderboardDb :=
  { tx with dirtyVault := tx.dirtyVault.deleteRows fun k _ => k ∈ vaults }

/-- Delete marks of accounts. -/
def deleteDirtyAccounts (tx : LeaderboardDb) (accounts : Finset String) : LeaderboardDb :=
  { tx with dirtyAccount := tx.dirtyAccount.deleteRows fun a _ => a ∈ accounts }

/-- Delete every mark of a vault there is, and return the vaults. -/
def drainDirtyVaults (tx : LeaderboardDb) : Finset VaultKey × LeaderboardDb :=
  (tx.dirtyVault.keys, deleteDirtyVaults tx tx.dirtyVault.keys)

/-- Delete every mark of an account there is, and return the accounts. -/
def drainDirtyAccounts (tx : LeaderboardDb) : Finset String × LeaderboardDb :=
  (tx.dirtyAccount.keys, deleteDirtyAccounts tx tx.dirtyAccount.keys)

/-- The accounts that are active in a vault. -/
def expandVaultToAccounts (db : Db) (k : VaultKey) : Finset String :=
  (db.activeVaultPosition.keys.filter fun p => p.vault = k).image PositionKey.accountId

/-! ## Computing -/

/-- The share price of a vault; `NULL` where the join finds no row. -/
def joinedSharePrice (db : Db) (k : VaultKey) : Option ℚ :=
  (db.vault.lookup k).map VaultRow.currentSharePrice

/-- The positions of an account. -/
def positionsOf (db : Db) (accountId : String) : Finset PositionKey :=
  db.position.keys.filter fun p => p.accountId = accountId

/-- The value of an open position; `NULL` counts for nothing in a sum. -/
def equityValue (p : PositionRow) (sharePrice : Option ℚ) : ℚ :=
  if p.shares > 0 then sharePrice.elim 0 fun price => p.shares * price else 0

/-- The gain of an open position over its cost. -/
def unrealizedGain (p : PositionRow) (sharePrice : Option ℚ) : ℚ :=
  if p.shares > 0 then
    sharePrice.elim 0 fun price => p.shares * price - p.shares * p.costBasis
  else 0

/-- An open position worth more than its cost. -/
def isWinning (p : PositionRow) (sharePrice : Option ℚ) : Bool :=
  p.shares > 0 && sharePrice.any fun price => p.shares * price > p.shares * p.costBasis

/-- An open position worth at most its cost. -/
def isLosing (p : PositionRow) (sharePrice : Option ℚ) : Bool :=
  p.shares > 0 && sharePrice.any fun price => p.shares * price ≤ p.shares * p.costBasis

/-- Compute an account from its positions, each joined with its vault. -/
def computeAccountPnl (db : Db) (accountId : String) : AccountPnlRow :=
  let positions := positionsOf db accountId
  let row (k : PositionKey) : PositionRow := (db.position.lookup k).getD {}
  let price (k : PositionKey) : Option ℚ := joinedSharePrice db k.vault
  { totalDeposits := ∑ k ∈ positions, (row k).totalDeposits
    currentEquityValue := ∑ k ∈ positions, equityValue (row k) (price k)
    realizedPnl := ∑ k ∈ positions, (row k).realizedPnl
    unrealizedPnl := ∑ k ∈ positions, unrealizedGain (row k) (price k)
    winningPositions := (positions.filter fun k => isWinning (row k) (price k)).card
    losingPositions := (positions.filter fun k => isLosing (row k) (price k)).card }

/-- Keep what was computed for an account. The redemptions of a row that is
there are left alone. -/
def upsertAccountPnlState (tx : LeaderboardDb) (accountId : String) (pnl : AccountPnlRow) :
    LeaderboardDb :=
  { tx with
    accountPnlState := tx.accountPnlState.upsert accountId fun row =>
      { totalDeposits := pnl.totalDeposits
        totalRedemptions := (row.map AccountPnlStateRow.totalRedemptions).getD 0
        realizedPnl := pnl.realizedPnl
        unrealizedPnl := pnl.unrealizedPnl
        totalPnl := pnl.realizedPnl + pnl.unrealizedPnl
        currentEquityValue := pnl.currentEquityValue
        winningPositions := pnl.winningPositions
        losingPositions := pnl.losingPositions } }

/-- Record what was computed for an account that has a row. -/
def insertAccountPnlSnapshot (tx : LeaderboardDb) (accountId : String) (pnl : AccountPnlRow)
    (ts : ℤ) : LeaderboardDb :=
  match tx.accountPnlState.lookup accountId with
  | none => tx
  | some state =>
    { tx with
      accountPnlSnapshot := tx.accountPnlSnapshot ++
        [{ accountId
           totalDeposits := pnl.totalDeposits
           totalRedemptions := state.totalRedemptions
           realizedPnl := pnl.realizedPnl
           unrealizedPnl := pnl.unrealizedPnl
           totalPnl := pnl.realizedPnl + pnl.unrealizedPnl
           currentEquityValue := pnl.currentEquityValue
           ts }] }

end LeaderboardRepo

/-! ## The transactions of a refresh cycle -/

namespace LeaderboardRefreshProjection

open LeaderboardRepo

/-- How many accounts one transaction computes. -/
def pnlBatchSize : ℕ := 100

/-- The accounts to compute for the marks that were drained: those that were
marked, and those that are active in a vault that was. -/
def accountSet (db : Db) (dirtyVaults : Finset VaultKey) (dirtyAccounts : Finset String) :
    Finset String :=
  dirtyAccounts ∪ dirtyVaults.biUnion (expandVaultToAccounts db)

/-- Compute one account and keep the result. -/
def refreshAccount (db : Db) (now : String → ℤ) (tx : LeaderboardDb) (accountId : String) :
    LeaderboardDb :=
  let pnl := computeAccountPnl db accountId
  insertAccountPnlSnapshot (upsertAccountPnlState tx accountId pnl) accountId pnl (now accountId)

/-- Compute a chunk of accounts. -/
def refreshChunk (db : Db) (now : String → ℤ) (tx : LeaderboardDb) (chunk : List String) :
    LeaderboardDb :=
  chunk.foldl (refreshAccount db now) tx

end LeaderboardRefreshProjection

/-! ## What a batch marks -/

namespace LeaderboardMarkerProjection

variable {ext : Externals} {tx : LeaderboardDb} {events : List ParsedEvent}

theorem mem_dirtyAccount_processEvent {e : ParsedEvent} {a : String} :
    a ∈ (processEvent ext tx e).dirtyAccount
      ↔ a ∈ markedAccounts e ∨ a ∈ tx.dirtyAccount := by
  cases e with
  | deposited metadata data =>
    have hmarks : (processEvent ext tx (.deposited metadata data)).dirtyAccount
        = ((tx.dirtyAccount.upsert data.sender fun _ => ⟨"deposited"⟩).upsert data.receiver
            fun _ => ⟨"deposited"⟩) := by
      show (handleDepositedTyped tx metadata data).dirtyAccount = _
      unfold handleDepositedTyped
      split <;> rfl
    rw [hmarks, Table.mem_upsert, Table.mem_upsert]
    simp [markedAccounts, or_assoc, or_left_comm]
  | redeemed metadata data =>
    show a ∈ ((tx.dirtyAccount.upsert data.sender fun _ => ⟨"redeemed"⟩).upsert data.receiver
      fun _ => ⟨"redeemed"⟩) ↔ _
    rw [Table.mem_upsert, Table.mem_upsert]
    simp [markedAccounts, or_assoc, or_left_comm]
  | _ => simp [processEvent, markedAccounts, handleSharePriceChangedTyped, markDirtyVault]

theorem mem_dirtyVault_processEvent {e : ParsedEvent} {k : VaultKey} :
    k ∈ (processEvent ext tx e).dirtyVault ↔ markedVault ext e = some k ∨ k ∈ tx.dirtyVault := by
  cases e with
  | deposited metadata data =>
    have hmarks : (processEvent ext tx (.deposited metadata data)).dirtyVault
        = tx.dirtyVault := by
      show (handleDepositedTyped tx metadata data).dirtyVault = _
      unfold handleDepositedTyped
      split <;> rfl
    rw [hmarks]
    simp [markedVault]
  | sharePriceChanged metadata data =>
    show k ∈ tx.dirtyVault.upsert _ _ ↔ _
    rw [Table.mem_upsert]
    simp [markedVault, eq_comm]
  | _ => simp [processEvent, markedVault, handleRedeemedTyped, markDirtyAccount,
      updateAccountStatsRedeem]

/-- **A batch marks the accounts of its events**, and takes no mark away. -/
theorem mem_dirtyAccount_processParsedBatch {a : String} :
    a ∈ (processParsedBatch ext tx events).dirtyAccount
      ↔ (∃ e ∈ events, a ∈ markedAccounts e) ∨ a ∈ tx.dirtyAccount := by
  unfold processParsedBatch
  induction events generalizing tx with
  | nil => simp
  | cons e es ih =>
    rw [List.foldl_cons, ih, mem_dirtyAccount_processEvent]
    simp [or_assoc, or_left_comm]

/-- **A batch marks the vaults of its events**, and takes no mark away. -/
theorem mem_dirtyVault_processParsedBatch {k : VaultKey} :
    k ∈ (processParsedBatch ext tx events).dirtyVault
      ↔ (∃ e ∈ events, markedVault ext e = some k) ∨ k ∈ tx.dirtyVault := by
  unfold processParsedBatch
  induction events generalizing tx with
  | nil => simp
  | cons e es ih =>
    rw [List.foldl_cons, ih, mem_dirtyVault_processEvent]
    simp [or_assoc, or_left_comm]

theorem accountPnlState_processEvent (e : ParsedEvent) :
    (processEvent ext tx e).accountPnlState = tx.accountPnlState := by
  cases e with
  | deposited metadata data =>
    show (handleDepositedTyped tx metadata data).accountPnlState = _
    unfold handleDepositedTyped
    split <;> rfl
  | _ => rfl

/-- A batch computes nothing. -/
theorem accountPnlState_processParsedBatch :
    (processParsedBatch ext tx events).accountPnlState = tx.accountPnlState := by
  unfold processParsedBatch
  induction events generalizing tx with
  | nil => rfl
  | cons e es ih => rw [List.foldl_cons, ih, accountPnlState_processEvent]

end LeaderboardMarkerProjection

/-! ## What a chunk computes -/

/-- The columns of a row that are computed are what was computed. -/
def AccountPnlStateRow.Shows (row : AccountPnlStateRow) (pnl : AccountPnlRow) : Prop :=
  row.totalDeposits = pnl.totalDeposits ∧ row.realizedPnl = pnl.realizedPnl
    ∧ row.unrealizedPnl = pnl.unrealizedPnl
    ∧ row.totalPnl = pnl.realizedPnl + pnl.unrealizedPnl
    ∧ row.currentEquityValue = pnl.currentEquityValue
    ∧ row.winningPositions = pnl.winningPositions ∧ row.losingPositions = pnl.losingPositions

/-- The row of an account shows what would be computed for it now. -/
def LeaderboardDb.UpToDate (t : LeaderboardDb) (db : Db) (accountId : String) : Prop :=
  ∃ row, t.accountPnlState.lookup accountId = some row
    ∧ row.Shows (LeaderboardRepo.computeAccountPnl db accountId)

namespace LeaderboardRefreshProjection

open LeaderboardRepo

variable {db : Db} {now : String → ℤ} {tx : LeaderboardDb} {chunk : List String}

/-- Recording a snapshot touches no other table. -/
theorem insertAccountPnlSnapshot_eq (a : String) (pnl : AccountPnlRow) (ts : ℤ) :
    ∃ snapshots, insertAccountPnlSnapshot tx a pnl ts
      = { tx with accountPnlSnapshot := snapshots } := by
  unfold insertAccountPnlSnapshot
  split
  · exact ⟨_, rfl⟩
  · exact ⟨_, rfl⟩

/-- Computing an account replaces its row. -/
theorem refreshAccount_eq (db : Db) (now : String → ℤ) (tx : LeaderboardDb) (a : String) :
    ∃ snapshots, refreshAccount db now tx a
      = { upsertAccountPnlState tx a (computeAccountPnl db a) with
          accountPnlSnapshot := snapshots } :=
  insertAccountPnlSnapshot_eq _ _ _

/-- Computing accounts marks and unmarks nothing. -/
theorem refreshChunk_marks (db : Db) (now : String → ℤ) (tx : LeaderboardDb)
    (chunk : List String) :
    (refreshChunk db now tx chunk).dirtyAccount = tx.dirtyAccount
      ∧ (refreshChunk db now tx chunk).dirtyVault = tx.dirtyVault := by
  unfold refreshChunk
  induction chunk generalizing tx with
  | nil => exact ⟨rfl, rfl⟩
  | cons a as ih =>
    obtain ⟨snapshots, h⟩ := refreshAccount_eq db now tx a
    rw [List.foldl_cons, h]
    exact ih _

theorem upToDate_upsert (a : String) :
    (upsertAccountPnlState tx a (computeAccountPnl db a)).UpToDate db a := by
  refine ⟨_, (Table.lookup_upsert _ _ _ _).trans (if_pos rfl), ?_⟩
  exact ⟨rfl, rfl, rfl, rfl, rfl, rfl, rfl⟩

theorem upToDate_refreshAccount {a b : String} (h : a = b ∨ tx.UpToDate db b) :
    (refreshAccount db now tx a).UpToDate db b := by
  obtain ⟨snapshots, heq⟩ := refreshAccount_eq db now tx a
  rw [heq]
  by_cases hab : a = b
  · subst hab
    exact upToDate_upsert a
  · obtain ⟨row, hrow, hshows⟩ := h.resolve_left hab
    refine ⟨row, ?_, hshows⟩
    exact ((Table.lookup_upsert _ _ _ _).trans (if_neg fun hba => hab hba.symm)).trans hrow

/-- **The accounts of a chunk are up to date once it is computed**, and those
that were stay so. -/
theorem upToDate_refreshChunk {a : String} (h : a ∈ chunk ∨ tx.UpToDate db a) :
    (refreshChunk db now tx chunk).UpToDate db a := by
  unfold refreshChunk
  induction chunk generalizing tx with
  | nil => exact h.resolve_left List.not_mem_nil
  | cons b bs ih =>
    rw [List.foldl_cons]
    refine ih ?_
    rw [List.mem_cons, or_assoc] at h
    obtain rfl | hmem | hfresh := h
    · exact .inr (upToDate_refreshAccount (.inl rfl))
    · exact .inl hmem
    · exact .inr (upToDate_refreshAccount (.inr hfresh))

end LeaderboardRefreshProjection

/-! ## What an account is computed from -/

namespace LeaderboardRepo

variable {db db' : Db} {a : String}

/-- **An account is computed from its positions and from the prices of the
vaults it has shares in.** -/
theorem computeAccountPnl_congr
    (hpositions : ∀ k : PositionKey, k.accountId = a →
      db'.position.lookup k = db.position.lookup k)
    (hprices : ∀ k row, k.accountId = a → db.position.lookup k = some row → row.shares > 0 →
      joinedSharePrice db' k.vault = joinedSharePrice db k.vault) :
    computeAccountPnl db' a = computeAccountPnl db a := by
  have hmem : ∀ k ∈ positionsOf db a, k.accountId = a := fun k hk =>
    (Finset.mem_filter.mp hk).2
  have hset : positionsOf db' a = positionsOf db a := by
    ext k
    unfold positionsOf
    rw [Finset.mem_filter, Finset.mem_filter, Finmap.mem_keys, Finmap.mem_keys]
    refine and_congr_left fun hk => ?_
    rw [← Finmap.lookup_isSome, ← Finmap.lookup_isSome, hpositions k hk]
  have hrow : ∀ k ∈ positionsOf db a,
      (db'.position.lookup k).getD {} = (db.position.lookup k).getD {} := fun k hk => by
    rw [hpositions k (hmem k hk)]
  -- the price of a position matters only while it is open
  have hprice : ∀ k ∈ positionsOf db a, 0 < ((db.position.lookup k).getD {}).shares →
      joinedSharePrice db' k.vault = joinedSharePrice db k.vault := by
    intro k hk hopen
    cases hlook : db.position.lookup k with
    | none =>
      rw [hlook] at hopen
      exact absurd hopen (lt_irrefl 0)
    | some row =>
      rw [hlook] at hopen
      exact hprices k row (hmem k hk) hlook hopen
  unfold computeAccountPnl
  simp only [hset, AccountPnlRow.mk.injEq]
  refine ⟨Finset.sum_congr rfl fun k hk => by rw [hrow k hk],
    Finset.sum_congr rfl fun k hk => ?_, Finset.sum_congr rfl fun k hk => by rw [hrow k hk],
    Finset.sum_congr rfl fun k hk => ?_, congrArg _ (Finset.filter_congr fun k hk => ?_),
    congrArg _ (Finset.filter_congr fun k hk => ?_)⟩ <;>
  · rw [hrow k hk]
    by_cases hopen : 0 < ((db.position.lookup k).getD {}).shares
    · rw [hprice k hk hopen]
    · simp [equityValue, unrealizedGain, isWinning, isLosing, hopen]

end LeaderboardRepo

namespace LeaderboardRefreshProjection

theorem mem_accountSet {db : Db} {vaults : Finset VaultKey} {accounts : Finset String}
    {a : String} :
    a ∈ accountSet db vaults accounts
      ↔ a ∈ accounts ∨ ∃ k ∈ vaults, a ∈ LeaderboardRepo.expandVaultToAccounts db k := by
  unfold accountSet
  rw [Finset.mem_union, Finset.mem_biUnion]

end LeaderboardRefreshProjection
