import IntuitionCore.Leaderboard.CumulativePositions
import Mathlib.Algebra.Order.Field.Rat
import Mathlib.Tactic.Ring

/-!
# The profit of a period

The leaderboard of a period takes two snapshots of every position, one at the hour in
which the period starts and one at the hour in which it ends. What a position gained is
added up of two parts: the unrealized part is what its shares are worth at the end, less
what was put in and not taken out; the realized part is what was taken out in the period,
less what the redeemed shares had cost on average.

What was taken out is in both parts. And a share price is the price of a whole share, which
is `10 ^ 18` of the units that shares are counted in, but the shares at the end are
multiplied by it as they are.
-/

namespace PnlLeaderboard

open PositionCumulative RunningTotals

/-- The arguments of the function that the profit of an account depends on. How the rows are
ordered and cut into pages does not change them. -/
structure Arguments where
  startDate : ℤ
  endDate : ℤ
  excludeProtocolAccounts : Bool := true
  minPositions : ℤ := 1
  minVolume : ℚ := 0
  termId : Option String := none
  minDeposit : ℚ := 0

/-- The tables the function reads, as it finds them. The prices are those that it has
collected for the start and the end of the period. -/
structure Tables where
  changes : Multiset TimedChange
  positionCumulativeHourly : HourlyTable
  /-- The accounts of the type of a protocol vault or an atom wallet. -/
  protocolAccounts : Finset String := ∅
  priceStart : VaultKey → Option ℚ := fun _ => none
  priceEnd : VaultKey → Option ℚ := fun _ => none

/-- The day of a time in seconds. -/
def dayBucket (ts : ℤ) : ℤ := ts - ts % 86400

/-- A position is of the term that is asked for, if one is. -/
abbrev Matches (args : Arguments) (termId : String) : Prop :=
  ∀ wanted ∈ args.termId, termId = wanted

/-- The accounts that were active on the days of the period. -/
def activeAccounts (args : Arguments) (t : Tables) : Finset String :=
  ((t.changes.filter fun change =>
      dayBucket args.startDate ≤ dayBucket change.1
        ∧ dayBucket change.1 ≤ dayBucket args.endDate
        ∧ Matches args change.2.termId
        ∧ ¬ (args.excludeProtocolAccounts = true ∧ change.2.accountId ∈ t.protocolAccounts)).map
    fun change => change.2.accountId).toFinset

/-- The snapshot of a position at the end of the period. -/
def snapEnd (args : Arguments) (t : Tables) (k : PositionKey) : Option PositionAmounts :=
  snapshot t.positionCumulativeHourly k (timeBucket args.endDate)

/-- The snapshot of a position at the start of the period; nothing before its first
change. -/
def snapStart (args : Arguments) (t : Tables) (k : PositionKey) : PositionAmounts :=
  (snapshot t.positionCumulativeHourly k (timeBucket args.startDate)).getD 0

/-- The positions of an account that have a snapshot at the end. -/
def tmpPositions (args : Arguments) (t : Tables) (accountId : String) : Finset PositionKey :=
  (t.positionCumulativeHourly.keys.image Prod.fst).filter fun k =>
    k.accountId = accountId ∧ Matches args k.termId ∧ (snapEnd args t k).isSome = true

/-- What was put in for one share, on average; nothing if there were no shares. -/
def averageCost (numericDiv : ℚ → ℚ → ℚ) (amounts : PositionAmounts) : ℚ :=
  if amounts.sharesIn = 0 then 0 else numericDiv amounts.assetsIn amounts.sharesIn

/-- A row of `per_position`. -/
structure PerPosition where
  unrealizedPnl : ℚ
  realizedPnl : ℚ
  isActive : ℕ
  periodAssetsIn : ℚ
  periodAssetsOut : ℚ
  equityValue : ℚ
  totalPnlAtStart : ℚ
  positionVolume : ℚ
  deriving DecidableEq, Repr

/-- The row of a position, from its snapshots at the start and the end and the prices
there. -/
def perPosition (numericDiv : ℚ → ℚ → ℚ) (start finish : PositionAmounts)
    (priceStart priceEnd : Option ℚ) : PerPosition where
  unrealizedPnl :=
    finish.shares * priceEnd.getD 0 - (finish.assetsIn - finish.assetsOut)
  realizedPnl :=
    (finish.assetsOut - start.assetsOut)
      - (finish.sharesOut - start.sharesOut) * averageCost numericDiv finish
  isActive := if 0 < finish.shares then 1 else 0
  periodAssetsIn := finish.assetsIn - start.assetsIn
  periodAssetsOut := finish.assetsOut - start.assetsOut
  equityValue := finish.shares * priceEnd.getD 0
  totalPnlAtStart :=
    start.shares * priceStart.getD 0 - (start.assetsIn - start.assetsOut)
      + (start.assetsOut - start.sharesOut * averageCost numericDiv start)
  positionVolume :=
    (finish.assetsIn - start.assetsIn) + (finish.assetsOut - start.assetsOut)

/-- A row of `account_agg`. -/
structure AccountAgg where
  unrealizedPnlRaw : ℚ
  realizedPnlRaw : ℚ
  totalPnlRaw : ℚ
  totalPositionCount : ℕ
  activePositionCount : ℕ
  winningPositions : ℕ
  losingPositions : ℕ
  totalDepositsRaw : ℚ
  totalRedemptionsRaw : ℚ
  totalVolumeRaw : ℚ
  currentEquityValueRaw : ℚ
  bestTradePnlRaw : WithBot ℚ
  worstTradePnlRaw : WithTop ℚ
  totalPnlAtStart : ℚ

variable (numericDiv : ℚ → ℚ → ℚ) (args : Arguments) (t : Tables)

/-- The row of a position in the tables. -/
def positionRow (k : PositionKey) : PerPosition :=
  perPosition numericDiv (snapStart args t k) ((snapEnd args t k).getD 0) (t.priceStart k.vault)
    (t.priceEnd k.vault)

/-- What the positions of an account add up to. -/
def accountAgg (positions : Finset PositionKey) : AccountAgg :=
  let row := positionRow numericDiv args t
  let pnl := fun k => (row k).unrealizedPnl + (row k).realizedPnl
  { unrealizedPnlRaw := ∑ k ∈ positions, (row k).unrealizedPnl
    realizedPnlRaw := ∑ k ∈ positions, (row k).realizedPnl
    totalPnlRaw := ∑ k ∈ positions, ((row k).unrealizedPnl + (row k).realizedPnl)
    totalPositionCount := positions.card
    activePositionCount := ∑ k ∈ positions, (row k).isActive
    winningPositions := (positions.filter fun k => 0 < pnl k).card
    losingPositions := (positions.filter fun k => pnl k < 0).card
    totalDepositsRaw := ∑ k ∈ positions, (row k).periodAssetsIn
    totalRedemptionsRaw := ∑ k ∈ positions, (row k).periodAssetsOut
    totalVolumeRaw := ∑ k ∈ positions, (row k).positionVolume
    currentEquityValueRaw := ∑ k ∈ positions, (row k).equityValue
    bestTradePnlRaw := (positions.image pnl).max
    worstTradePnlRaw := (positions.image pnl).min
    totalPnlAtStart := ∑ k ∈ positions, (row k).totalPnlAtStart }

/-- **The row that the function returns for an account**, if it does. -/
def getPnlLeaderboardPeriod (accountId : String) : Except String (Option AccountAgg) :=
  if args.endDate ≤ args.startDate then .error "p_start_date must be before p_end_date"
  else
    let positions := tmpPositions args t accountId
    let agg := accountAgg numericDiv args t positions
    .ok (if accountId ∈ activeAccounts args t ∧ positions.Nonempty
        ∧ args.minPositions ≤ agg.totalPositionCount ∧ args.minVolume ≤ agg.totalVolumeRaw
        ∧ args.minDeposit ≤ agg.totalDepositsRaw then some agg else none)

/-! ## What the account gained -/

/-- What the changes of a position add up to. -/
def amountsOf (changes : Multiset TimedChange) (k : PositionKey) : PositionAmounts :=
  ((changes.filter fun change => hourly.owner change = k).map hourly.amount).sum

/-- The changes of an account, of the term that is asked for. -/
def changesOf (args : Arguments) (t : Tables) (accountId : String) : Multiset TimedChange :=
  t.changes.filter fun change => change.2.accountId = accountId ∧ Matches args change.2.termId

/-- The positions of an account, of the term that is asked for. -/
def positionsOf (args : Arguments) (t : Tables) (accountId : String) : Finset PositionKey :=
  ((changesOf args t accountId).map hourly.owner).toFinset

/-- What the shares of a position are worth, at a price for `10 ^ 18` of them. -/
def worth (t : Tables) (k : PositionKey) : ℚ :=
  (amountsOf t.changes k).shares * (t.priceEnd k.vault).getD 0 / 10 ^ 18

/-- **What an account gained**: what it holds and what it took out, less what it put in. -/
def profit (args : Arguments) (t : Tables) (accountId : String) : ℚ :=
  ∑ k ∈ positionsOf args t accountId, worth t k
    + ((changesOf args t accountId).map fun change => change.2.assetsOut).sum
    - ((changesOf args t accountId).map fun change => change.2.assetsIn).sum

/-- The period covers the whole history. -/
abbrev Covers (args : Arguments) (t : Tables) : Prop :=
  ∀ change ∈ t.changes, args.startDate ≤ change.1 ∧ change.1 ≤ args.endDate

/-- What happened to a position after the hour in which the period starts. -/
def amountsAfterStart (args : Arguments) (t : Tables) (k : PositionKey) : PositionAmounts :=
  ((t.changes.filter fun change => hourly.owner change = k
    ∧ timeBucket args.startDate < timeBucket change.1).map hourly.amount).sum

/-- What a position redeemed after the hour of the start was sold for, over what it had cost
on average. -/
def gainOnRedeemed (k : PositionKey) : ℚ :=
  (amountsAfterStart args t k).assetsOut
    - (amountsAfterStart args t k).sharesOut * averageCost numericDiv (amountsOf t.changes k)

/-! ## What the function returns -/

variable {numericDiv args t} {accountId : String} {k : PositionKey}

/-- The account is active, and has the positions, the volume and the deposits that are asked
for. -/
abbrev Listed (args : Arguments) (t : Tables) (accountId : String) (agg : AccountAgg) :
    Prop :=
  accountId ∈ activeAccounts args t ∧ (tmpPositions args t accountId).Nonempty
    ∧ args.minPositions ≤ agg.totalPositionCount ∧ args.minVolume ≤ agg.totalVolumeRaw
    ∧ args.minDeposit ≤ agg.totalDepositsRaw

/-- The row of an account has what its positions add up to. -/
theorem getPnlLeaderboardPeriod_eq_some {agg : AccountAgg} :
    getPnlLeaderboardPeriod numericDiv args t accountId = .ok (some agg)
      ↔ args.startDate < args.endDate
        ∧ Listed args t accountId (accountAgg numericDiv args t (tmpPositions args t accountId))
        ∧ agg = accountAgg numericDiv args t (tmpPositions args t accountId) := by
  unfold getPnlLeaderboardPeriod
  by_cases hdates : args.endDate ≤ args.startDate
  · rw [if_pos hdates]
    exact iff_of_false (fun h => by cases h) fun h => absurd h.1 (not_lt.mpr hdates)
  · rw [if_neg hdates, Except.ok.injEq]
    refine Option.ite_some_none_eq_some.trans ?_
    rw [and_iff_right (not_le.mp hdates), eq_comm (a := agg)]

/-- The changes of a position that are not after the hour of the start, and the others, are
all of them. -/
theorem sumUpTo_add_amountsAfterStart :
    sumUpTo hourly t.changes k (timeBucket args.startDate) + amountsAfterStart args t k
      = amountsOf t.changes k := by
  unfold sumUpTo amountsAfterStart amountsOf
  rw [← Multiset.sum_add, ← Multiset.map_add,
    ← Multiset.filter_add_not (fun change => hourly.bucket change ≤ timeBucket args.startDate)
      (t.changes.filter fun change => hourly.owner change = k),
    Multiset.filter_filter, Multiset.filter_filter]
  congr 3
  · exact Multiset.filter_congr fun change _ => and_comm
  · refine Multiset.filter_congr fun change _ => ?_
    rw [and_comm, not_le]
    rfl

/-- In a period that covers the history all changes are up to its end. -/
theorem sumUpTo_end (hcover : Covers args t) :
    sumUpTo hourly t.changes k (timeBucket args.endDate) = amountsOf t.changes k := by
  unfold sumUpTo amountsOf
  refine congrArg (fun changes => (Multiset.map hourly.amount changes).sum)
    (Multiset.filter_congr fun change hchange => and_iff_left ?_)
  have hle := (hcover change hchange).2
  show timeBucket change.1 ≤ timeBucket args.endDate
  unfold timeBucket
  omega

section Kept

variable (hkept : t.positionCumulativeHourly = fullPass (positionChangeHourly t.changes))

include hkept in
/-- The snapshot at the end has all changes. -/
theorem snapEnd_eq_some (hcover : Covers args t) {m : PositionAmounts} :
    snapEnd args t k = some m
      ↔ (∃ change ∈ t.changes, hourly.owner change = k) ∧ amountsOf t.changes k = m := by
  unfold snapEnd
  rw [hkept, positionChangeHourly, snapshot_fullPass, sumUpTo_end hcover]
  refine and_congr_left fun _ => exists_congr fun change => ?_
  refine and_congr_right fun hchange => and_iff_left ?_
  have hle := (hcover change hchange).2
  show timeBucket change.1 ≤ timeBucket args.endDate
  unfold timeBucket
  omega

include hkept in
/-- The snapshot at the start has the changes up to the hour of the start. -/
theorem snapStart_eq : snapStart args t k
    = sumUpTo hourly t.changes k (timeBucket args.startDate) := by
  unfold snapStart
  cases hsnap : snapshot t.positionCumulativeHourly k (timeBucket args.startDate) with
  | some m =>
    rw [hkept, positionChangeHourly, snapshot_fullPass] at hsnap
    exact hsnap.2.symm
  | none =>
    refine (sumUpTo_eq_zero fun change hchange howner hle => ?_).symm
    have hsome : snapshot t.positionCumulativeHourly k (timeBucket args.startDate)
        = some (sumUpTo hourly t.changes k (timeBucket args.startDate)) := by
      rw [hkept, positionChangeHourly]
      exact snapshot_fullPass.mpr ⟨⟨change, hchange, howner, hle⟩, rfl⟩
    rw [hsnap] at hsome
    cases hsome

include hkept in
/-- The positions with a snapshot at the end are those that ever changed. -/
theorem tmpPositions_eq (hcover : Covers args t) :
    tmpPositions args t accountId = positionsOf args t accountId := by
  refine Finset.ext fun k => ?_
  unfold tmpPositions positionsOf changesOf
  rw [Finset.mem_filter, Finset.mem_image, Multiset.mem_toFinset, Multiset.mem_map]
  constructor
  · rintro ⟨-, haccount, hmatches, hsome⟩
    obtain ⟨m, hm⟩ := Option.isSome_iff_exists.mp hsome
    obtain ⟨⟨change, hchange, rfl⟩, -⟩ := (snapEnd_eq_some hkept hcover).mp hm
    exact ⟨change, Multiset.mem_filter.mpr ⟨hchange, haccount, hmatches⟩, rfl⟩
  · rintro ⟨change, hmem, rfl⟩
    obtain ⟨hchange, haccount, hmatches⟩ := Multiset.mem_filter.mp hmem
    have hkey : (hourly.owner change, hourly.bucket change) ∈ t.positionCumulativeHourly.keys := by
      rw [hkept, Finmap.mem_keys, fullPass, Table.mem_tabulate, Finmap.mem_keys]
      exact mem_grouped.mpr ⟨change, hchange, rfl⟩
    exact ⟨⟨_, hkey, rfl⟩, haccount, hmatches, Option.isSome_iff_exists.mpr
      ⟨_, (snapEnd_eq_some hkept hcover).mpr ⟨⟨change, hchange, rfl⟩, rfl⟩⟩⟩

/-- The row of a position has the shares at the full price, and what was taken out in both
parts. -/
theorem perPosition_pnl {start after : PositionAmounts} {priceStart priceEnd : Option ℚ} :
    (perPosition numericDiv start (start + after) priceStart priceEnd).unrealizedPnl
        + (perPosition numericDiv start (start + after) priceStart priceEnd).realizedPnl
      = (start + after).shares * priceEnd.getD 0
        + (start + after).assetsOut - (start + after).assetsIn
        + (after.assetsOut - after.sharesOut * averageCost numericDiv (start + after)) := by
  show (start + after).shares * priceEnd.getD 0
      - ((start + after).assetsIn - (start + after).assetsOut)
      + ((start.assetsOut + after.assetsOut - start.assetsOut)
        - (start.sharesOut + after.sharesOut - start.sharesOut)
          * averageCost numericDiv (start + after)) = _
  ring

include hkept in
/-- The row of a position has its worth `10 ^ 18` times, and its gain in both parts. -/
theorem positionRow_pnl (hcover : Covers args t) (hk : k ∈ positionsOf args t accountId) :
    (positionRow numericDiv args t k).unrealizedPnl + (positionRow numericDiv args t k).realizedPnl
      = (worth t k + (amountsOf t.changes k).assetsOut - (amountsOf t.changes k).assetsIn)
        + (worth t k * (10 ^ 18 - 1) + gainOnRedeemed numericDiv args t k) := by
  obtain ⟨change, hmem, howner⟩ := Multiset.mem_map.mp (Multiset.mem_toFinset.mp hk)
  have hend : snapEnd args t k = some (amountsOf t.changes k) :=
    (snapEnd_eq_some hkept hcover).mpr ⟨⟨change, (Multiset.mem_filter.mp hmem).1, howner⟩, rfl⟩
  have hsum : amountsOf t.changes k = snapStart args t k + amountsAfterStart args t k := by
    rw [snapStart_eq hkept, sumUpTo_add_amountsAfterStart]
  have hrow : positionRow numericDiv args t k
      = perPosition numericDiv (snapStart args t k) (amountsOf t.changes k)
        (t.priceStart k.vault) (t.priceEnd k.vault) := by
    unfold positionRow
    rw [hend]
    rfl
  rw [hrow]
  unfold worth gainOnRedeemed
  rw [hsum, perPosition_pnl]
  ring

end Kept

/-! ## What the parts add up to -/

/-- A column of the amounts, taken of sums. -/
theorem map_sum_amounts (f : PositionAmounts →+ ℚ) (changes : Multiset TimedChange) :
    f (changes.map hourly.amount).sum
      = (changes.map fun change => f (hourly.amount change)).sum := by
  rw [map_multiset_sum, Multiset.map_map]
  rfl

/-- What the positions of an account add up to is what its changes add up to. -/
theorem sum_positionsOf (f : PositionAmounts →+ ℚ) :
    ∑ k ∈ positionsOf args t accountId, f (amountsOf t.changes k)
      = ((changesOf args t accountId).map fun change => f (hourly.amount change)).sum := by
  unfold amountsOf
  rw [Finset.sum_congr rfl fun k _ => map_sum_amounts f _, sum_groups hourly.owner]
  congr 2
  refine Multiset.filter_congr fun change hchange => ?_
  unfold positionsOf changesOf
  rw [Multiset.mem_toFinset, Multiset.mem_map]
  constructor
  · rintro ⟨other, hmem, howner⟩
    have hother := (Multiset.mem_filter.mp hmem).2
    rw [show other.2.accountId = change.2.accountId from congrArg PositionKey.accountId howner,
      show other.2.termId = change.2.termId from congrArg PositionKey.termId howner] at hother
    exact hother
  · exact fun h => ⟨change, Multiset.mem_filter.mpr ⟨hchange, h⟩, rfl⟩

/-- The assets that were put in. -/
def assetsInHom : PositionAmounts →+ ℚ where
  toFun := PositionAmounts.assetsIn
  map_zero' := rfl
  map_add' _ _ := rfl

/-- The assets that were taken out. -/
def assetsOutHom : PositionAmounts →+ ℚ where
  toFun := PositionAmounts.assetsOut
  map_zero' := rfl
  map_add' _ _ := rfl

/-- **What an account gained, position by position.** -/
theorem profit_eq_sum : profit args t accountId = ∑ k ∈ positionsOf args t accountId,
    (worth t k + (amountsOf t.changes k).assetsOut - (amountsOf t.changes k).assetsIn) := by
  have hin := @sum_positionsOf args t accountId assetsInHom
  have hout := @sum_positionsOf args t accountId assetsOutHom
  unfold profit
  rw [Finset.sum_sub_distrib, Finset.sum_add_distrib]
  exact congrArg₂ (fun x y => _ + x - y) hout.symm hin.symm

/-- **The function counts the gain of the period twice, and what is held `10 ^ 18` times.**
The row of an account has the profit of the account exactly if the two add up to nothing. -/
theorem profit_identity_iff {agg : AccountAgg}
    (hkept : t.positionCumulativeHourly = fullPass (positionChangeHourly t.changes))
    (hcover : Covers args t)
    (hrow : getPnlLeaderboardPeriod numericDiv args t accountId = .ok (some agg)) :
    agg.totalPnlRaw = profit args t accountId
        ∧ agg.totalPnlRaw = agg.realizedPnlRaw + agg.unrealizedPnlRaw
      ↔ ∑ k ∈ positionsOf args t accountId,
          (worth t k * (10 ^ 18 - 1) + gainOnRedeemed numericDiv args t k) = 0 := by
  have hagg : agg = accountAgg numericDiv args t (positionsOf args t accountId) := by
    rw [← tmpPositions_eq hkept hcover]
    exact (getPnlLeaderboardPeriod_eq_some.mp hrow).2.2
  have hsplit : agg.totalPnlRaw = agg.realizedPnlRaw + agg.unrealizedPnlRaw := by
    rw [hagg, add_comm]
    exact Finset.sum_add_distrib
  have htotal : agg.totalPnlRaw = profit args t accountId
      + ∑ k ∈ positionsOf args t accountId,
          (worth t k * (10 ^ 18 - 1) + gainOnRedeemed numericDiv args t k) := by
    rw [hagg, profit_eq_sum, ← Finset.sum_add_distrib]
    exact Finset.sum_congr rfl fun k hk => positionRow_pnl hkept hcover hk
  rw [and_iff_left hsplit, htotal]
  exact add_eq_left

/-- The change of a position in the curve `1` of the term `0x01`. -/
def changeAt (ts : ℤ) (accountId : String) (sharesDelta assetsIn assetsOut : ℚ) : TimedChange :=
  (ts, { accountId := accountId, termId := "0x01", curveId := "1", eventType := "",
         sharesDelta := sharesDelta, assetsIn := assetsIn, assetsOut := assetsOut,
         executionPrice := 0, blockNumber := 0, transactionHash := "" })

/-- Changes, their sums, and the price of a share at the end. -/
def upToDate (changes : Multiset TimedChange) (price : Option ℚ) : Tables where
  changes := changes
  positionCumulativeHourly := fullPass (positionChangeHourly changes)
  priceEnd _ := price

/-- The first day, which has all of the history. -/
def firstDay : Arguments := { startDate := 0, endDate := 86400 }

/-- A hundred is put in for a hundred shares, and nobody knows what they are worth. -/
theorem profit_identity_iff_unpriced :
    ∃ agg, getPnlLeaderboardPeriod (· / ·) firstDay
        (upToDate {changeAt 7200 "0xa" 100 100 0} none) "0xa" = .ok (some agg)
      ∧ agg.totalPnlRaw = profit firstDay (upToDate {changeAt 7200 "0xa" 100 100 0} none) "0xa"
      ∧ agg.totalPnlRaw = agg.realizedPnlRaw + agg.unrealizedPnlRaw := by
  have hrow := (@getPnlLeaderboardPeriod_eq_some (· / ·) firstDay
    (upToDate {changeAt 7200 "0xa" 100 100 0} none) "0xa" _).mpr
    ⟨by decide, by decide +kernel, rfl⟩
  exact ⟨_, hrow, (profit_identity_iff rfl (by decide +kernel) hrow).mpr (by decide +kernel)⟩

/-- A hundred is put in for a hundred shares, and taken out for fifty of them. A share is
worth what was paid for it. -/
def redeemedAtGain : Tables :=
  upToDate {changeAt 7200 "0xa" 100 100 0, changeAt 10800 "0xa" (-50) 0 100} (some (10 ^ 18))

/-- **A gain that is counted twice.** The fifty shares that are left are worth 50, and that
is the profit. The function returns the fifty `10 ^ 18` times, and another 50 for what was
taken out. -/
theorem redeemedAtGain_countedTwice : Covers firstDay redeemedAtGain
    ∧ profit firstDay redeemedAtGain "0xa" = 50
    ∧ ∃ agg, getPnlLeaderboardPeriod (· / ·) firstDay redeemedAtGain "0xa" = .ok (some agg)
      ∧ agg.totalPnlRaw = 50 * 10 ^ 18 + 50 :=
  ⟨by decide +kernel, by decide +kernel, _,
    getPnlLeaderboardPeriod_eq_some.mpr ⟨by decide, by decide +kernel, rfl⟩, by decide +kernel⟩

end PnlLeaderboard
