import IntuitionCore.Leaderboard.Repo
import Mathlib.Algebra.BigOperators.Ring.Finset
import Mathlib.Algebra.Order.BigOperators.Group.Finset
import Mathlib.Algebra.Order.Field.Rat
import Mathlib.Tactic.Linarith

/-!
# What positions are worth now

The profit of an account on paper is what its open positions are worth at the current share
prices, less what they cost. A cost is in assets for a unit of shares. A share price is in
assets for a whole share, which is `10 ^ 18` units, and that is how the market cap of a vault
takes it. The query multiplies units by the price as it is, so what it sets against the cost
is `10 ^ 18` times too much.

A position in a vault that is not known has no price. It counts for nothing in the value, and
its cost is not counted either.
-/

namespace LeaderboardRepo

/-- The units of a whole share. -/
def shareUnit : ℚ := 10 ^ 18

variable (db : Db) (accountId : String)

/-- A row of a position. -/
def positionRow (k : PositionKey) : PositionRow := (db.position.lookup k).getD {}

/-- The open positions of an account. -/
def openPositions : Finset PositionKey :=
  (positionsOf db accountId).filter fun k => 0 < (positionRow db k).shares

/-- What an open position is worth at the current price of its vault. -/
def marketValue (k : PositionKey) : ℚ :=
  (joinedSharePrice db k.vault).elim 0 fun price => (positionRow db k).shares * price / shareUnit

/-- What an open position cost. -/
def cost (k : PositionKey) : ℚ := (positionRow db k).shares * (positionRow db k).costBasis

/-- A position was opened by deposits at the current price: a unit of shares cost what it
costs now. -/
def AtCurrentPrice (k : PositionKey) : Prop :=
  ∃ price, joinedSharePrice db k.vault = some price
    ∧ (positionRow db k).costBasis = price / shareUnit

/-- **An account is marked to market**: its equity is the value of its open positions, its
profit on paper is that less their cost, and there is none, and no position is winning, where
all were opened at the current price. -/
structure MarkedToMarket (pnl : AccountPnlRow) : Prop where
  equity : pnl.currentEquityValue = ∑ k ∈ openPositions db accountId, marketValue db k
  unrealized : pnl.unrealizedPnl
    = pnl.currentEquityValue - ∑ k ∈ openPositions db accountId, cost db k
  atCurrentPrice : (∀ k ∈ openPositions db accountId, AtCurrentPrice db k) →
    pnl.unrealizedPnl = 0 ∧ pnl.winningPositions = 0

/-- Prices and costs are not negative: the ones come from unsigned integers, and the others
are quotients of sums of them. -/
structure NonnegAmounts : Prop where
  price : ∀ k, ∀ price ∈ joinedSharePrice db k, 0 ≤ price
  costBasis : ∀ k, 0 ≤ (positionRow db k).costBasis

/-- There is nothing to scale: an open position is in a vault with a price of zero, or it is
in no vault that is known and cost nothing. -/
def Unpriced (k : PositionKey) : Prop :=
  match joinedSharePrice db k.vault with
  | some price => price = 0
  | none => (positionRow db k).costBasis = 0

instance (k : PositionKey) : Decidable (Unpriced db k) := by
  unfold Unpriced
  split <;> infer_instance

variable {db accountId}

theorem mem_openPositions {k : PositionKey} :
    k ∈ openPositions db accountId ↔ k ∈ positionsOf db accountId ∧ 0 < (positionRow db k).shares :=
  Finset.mem_filter

/-- The cost of an open position in a vault that is known. -/
def pricedCost (db : Db) (k : PositionKey) : ℚ :=
  (joinedSharePrice db k.vault).elim 0 fun _ => cost db k

/-- **The equity is the value in units.** -/
theorem currentEquityValue_eq : (computeAccountPnl db accountId).currentEquityValue
    = ∑ k ∈ openPositions db accountId, shareUnit * marketValue db k := by
  have hvalue : ∀ k, equityValue (positionRow db k) (joinedSharePrice db k.vault)
      = if 0 < (positionRow db k).shares then shareUnit * marketValue db k else 0 := fun k => by
    unfold equityValue marketValue
    refine if_congr Iff.rfl ?_ rfl
    cases joinedSharePrice db k.vault with
    | none => exact (mul_zero _).symm
    | some price => exact (mul_div_cancel₀ _ (by unfold shareUnit; norm_num)).symm
  rw [openPositions, Finset.sum_filter]
  exact Finset.sum_congr rfl fun k _ => hvalue k

/-- **The profit on paper is that less the cost of what has a price.** -/
theorem unrealizedPnl_eq : (computeAccountPnl db accountId).unrealizedPnl
    = (computeAccountPnl db accountId).currentEquityValue
      - ∑ k ∈ openPositions db accountId, pricedCost db k := by
  have hgain : ∀ k, unrealizedGain (positionRow db k) (joinedSharePrice db k.vault)
      = equityValue (positionRow db k) (joinedSharePrice db k.vault)
        - if 0 < (positionRow db k).shares then pricedCost db k else 0 := fun k => by
    unfold unrealizedGain equityValue pricedCost
    by_cases hopen : 0 < (positionRow db k).shares
    · rw [if_pos hopen, if_pos hopen, if_pos hopen]
      cases joinedSharePrice db k.vault with
      | none => exact (sub_zero _).symm
      | some price => rfl
    · rw [if_neg hopen, if_neg hopen, if_neg hopen, sub_zero]
  rw [openPositions, Finset.sum_filter]
  show _ = ∑ k ∈ positionsOf db accountId, equityValue (positionRow db k) _ - _
  rw [← Finset.sum_sub_distrib]
  exact Finset.sum_congr rfl fun k _ => hgain k

section Nonneg

variable (hnonneg : NonnegAmounts db)
include hnonneg

theorem marketValue_nonneg {k : PositionKey} (hk : k ∈ openPositions db accountId) :
    0 ≤ marketValue db k := by
  have hshares := (mem_openPositions.mp hk).2
  unfold marketValue
  cases hprice : joinedSharePrice db k.vault with
  | none => exact le_rfl
  | some price =>
    exact div_nonneg (mul_nonneg hshares.le (hnonneg.price _ price hprice))
      (by unfold shareUnit; norm_num)

/-- The cost of a position without a price is missing. -/
theorem pricedCost_le_cost {k : PositionKey} (hk : k ∈ openPositions db accountId) :
    pricedCost db k ≤ cost db k := by
  have hshares := (mem_openPositions.mp hk).2
  unfold pricedCost
  cases joinedSharePrice db k.vault with
  | none => exact mul_nonneg hshares.le (hnonneg.costBasis k)
  | some price => exact le_rfl

/-- **The equity is right exactly if no position is worth anything.** -/
theorem equity_iff : (computeAccountPnl db accountId).currentEquityValue
      = ∑ k ∈ openPositions db accountId, marketValue db k
    ↔ ∀ k ∈ openPositions db accountId, marketValue db k = 0 := by
  rw [currentEquityValue_eq, ← Finset.mul_sum, ← Finset.sum_eq_zero_iff_of_nonneg fun k hk =>
    marketValue_nonneg hnonneg hk]
  constructor
  · intro h
    unfold shareUnit at h
    linarith
  · intro h
    rw [h, mul_zero]

/-- **The profit on paper is the equity less the cost exactly if every cost is counted.** -/
theorem unrealized_iff : (computeAccountPnl db accountId).unrealizedPnl
      = (computeAccountPnl db accountId).currentEquityValue
        - ∑ k ∈ openPositions db accountId, cost db k
    ↔ ∀ k ∈ openPositions db accountId, pricedCost db k = cost db k := by
  rw [unrealizedPnl_eq, sub_right_inj]
  exact Finset.sum_eq_sum_iff_of_le fun k hk => pricedCost_le_cost hnonneg hk

end Nonneg

/-- What it means that nothing is worth anything and every cost is counted. -/
theorem unpriced_iff {k : PositionKey} (hk : k ∈ openPositions db accountId) :
    marketValue db k = 0 ∧ pricedCost db k = cost db k ↔ Unpriced db k := by
  have hshares := (mem_openPositions.mp hk).2.ne'
  have hunit : shareUnit ≠ 0 := by unfold shareUnit; norm_num
  unfold marketValue pricedCost Unpriced cost
  cases joinedSharePrice db k.vault with
  | none => simp [hshares, eq_comm]
  | some price => simp [hshares, hunit]

/-- **An account is marked to market exactly if its open positions are unpriced.** -/
theorem marked_to_market_iff (db : Db) (accountId : String) (hnonneg : NonnegAmounts db) :
    MarkedToMarket db accountId (computeAccountPnl db accountId)
      ↔ ∀ k ∈ openPositions db accountId, Unpriced db k := by
  constructor
  · intro h k hk
    exact (unpriced_iff hk).mp ⟨(equity_iff hnonneg).mp h.equity k hk,
      (unrealized_iff hnonneg).mp h.unrealized k hk⟩
  · intro h
    have hvalue : ∀ k ∈ openPositions db accountId, marketValue db k = 0 := fun k hk =>
      ((unpriced_iff hk).mpr (h k hk)).1
    have hcost : ∀ k ∈ openPositions db accountId, pricedCost db k = cost db k := fun k hk =>
      ((unpriced_iff hk).mpr (h k hk)).2
    refine ⟨(equity_iff hnonneg).mpr hvalue, (unrealized_iff hnonneg).mpr hcost, fun hat => ?_⟩
    -- a position that was opened at a price of zero cost nothing
    have hfree : ∀ k ∈ openPositions db accountId,
        joinedSharePrice db k.vault = some 0 ∧ (positionRow db k).costBasis = 0 := fun k hk => by
      obtain ⟨price, hprice, hbasis⟩ := hat k hk
      have hzero := h k hk
      unfold Unpriced at hzero
      rw [hprice] at hzero
      dsimp only at hzero
      subst hzero
      exact ⟨hprice, hbasis.trans (zero_div _)⟩
    constructor
    · rw [(unrealized_iff hnonneg).mpr hcost, (equity_iff hnonneg).mpr hvalue,
        Finset.sum_eq_zero hvalue, Finset.sum_eq_zero fun k hk => ?_, sub_zero]
      rw [cost, (hfree k hk).2, mul_zero]
    · refine Finset.card_eq_zero.mpr (Finset.filter_eq_empty_iff.mpr fun k hk hwins => ?_)
      have hopen : k ∈ openPositions db accountId := mem_openPositions.mpr
        ⟨hk, of_decide_eq_true (Bool.and_eq_true_iff.mp hwins).1⟩
      have hgain : (joinedSharePrice db k.vault).any (fun price => decide
          ((positionRow db k).shares * price
            > (positionRow db k).shares * (positionRow db k).costBasis)) = true :=
        (Bool.and_eq_true_iff.mp hwins).2
      obtain ⟨hprice, hbasis⟩ := hfree k hopen
      rw [hprice] at hgain
      have hlt : (positionRow db k).shares * (positionRow db k).costBasis
          < (positionRow db k).shares * 0 := of_decide_eq_true hgain
      rw [hbasis] at hlt
      exact absurd hlt (lt_irrefl _)

/-- A position that one deposit at the current price opened is at the current price, where
the quotient is exact. -/
theorem atCurrentPrice_onDeposit {ext : Externals} (hdiv : ∀ x y, ext.numericDiv x y = x / y)
    {db : Db} {k : PositionKey} {shares price : ℚ} {blockTimestamp : ℤ} (hshares : 0 < shares)
    (hprice : joinedSharePrice db k.vault = some price)
    (hrow : db.position.lookup k
      = some (PositionRow.onDeposit ext shares (shares * price / shareUnit) blockTimestamp none)) :
    AtCurrentPrice db k := by
  refine ⟨price, hprice, ?_⟩
  have hbasis : (positionRow db k).costBasis
      = if shares > 0 then ext.numericDiv (shares * price / shareUnit) shares else 0 := by
    rw [positionRow, hrow]
    rfl
  rw [hbasis, if_pos hshares, hdiv, mul_div_assoc, mul_div_cancel_left₀ _ hshares.ne']

section OneDeposit

/-- The account "a" deposits into a vault, and gets one whole share. -/
def oneDeposit (price : ℚ) : Db where
  vault := (∅ : Table VaultKey VaultRow).upsert ⟨"t", "1"⟩ (VaultRow.updatePrice price 0 0 0)
  position := (∅ : Table PositionKey PositionRow).upsert ⟨"a", "t", "1"⟩
    (PositionRow.onDeposit .exact shareUnit price 0)

theorem nonnegAmounts_oneDeposit {price : ℚ} (hprice : 0 ≤ price) :
    NonnegAmounts (oneDeposit price) where
  price k p hp := by
    unfold joinedSharePrice oneDeposit at hp
    rw [Table.lookup_upsert] at hp
    split at hp
    · exact hprice.trans_eq (Option.some.inj hp)
    · exact absurd hp (Option.not_mem_none p)
  costBasis k := by
    unfold positionRow oneDeposit
    rw [Table.lookup_upsert]
    split
    · show 0 ≤ if shareUnit > 0 then price / shareUnit else 0
      rw [if_pos (by unfold shareUnit; norm_num)]
      exact div_nonneg hprice (by unfold shareUnit; norm_num)
    · exact le_rfl

/-- The conditions hold of a position in a vault whose price is zero. -/
theorem marked_to_market_iff_oneDeposit : NonnegAmounts (oneDeposit 0)
    ∧ (openPositions (oneDeposit 0) "a").Nonempty
    ∧ MarkedToMarket (oneDeposit 0) "a" (computeAccountPnl (oneDeposit 0) "a") := by
  have hopen : openPositions (oneDeposit 0) "a" = {⟨"a", "t", "1"⟩} := by decide +kernel
  have hnonneg := nonnegAmounts_oneDeposit (le_refl 0)
  refine ⟨hnonneg, hopen ▸ Finset.singleton_nonempty _,
    (marked_to_market_iff (oneDeposit 0) "a" hnonneg).mpr ?_⟩
  rw [hopen]
  decide +kernel

/-- A deposit at a price of two for a whole share shows a profit at once, and wins. -/
theorem oneDeposit_not_marked_to_market :
    ¬ MarkedToMarket (oneDeposit (2 * 10 ^ 18)) "a"
      (computeAccountPnl (oneDeposit (2 * 10 ^ 18)) "a") := by
  intro h
  have hopen : openPositions (oneDeposit (2 * 10 ^ 18)) "a" = {⟨"a", "t", "1"⟩} := by
    decide +kernel
  have hat : ∀ k ∈ openPositions (oneDeposit (2 * 10 ^ 18)) "a",
      AtCurrentPrice (oneDeposit (2 * 10 ^ 18)) k := by
    rw [hopen]
    intro k hk
    rw [Finset.mem_singleton.mp hk]
    exact ⟨2 * 10 ^ 18, by decide +kernel, by decide +kernel⟩
  have hwins : (computeAccountPnl (oneDeposit (2 * 10 ^ 18)) "a").winningPositions = 1 := by
    decide +kernel
  exact absurd ((h.atCurrentPrice hat).2) (hwins ▸ one_ne_zero)

end OneDeposit

end LeaderboardRepo
