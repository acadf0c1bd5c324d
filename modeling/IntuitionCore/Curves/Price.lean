import IntuitionCore.Curves.Market
import IntuitionCore.Library.Run
import Mathlib.Algebra.Order.Field.Rat
import Mathlib.Algebra.Order.Field.Basic
import Mathlib.Tactic.Positivity

/-!
# The price of the linear curve never falls

A share of the linear curve is worth the ratio of its two totals. A trade
moves both of them in nearly that ratio, and what the rounding keeps stays
with the vault, so no trade lowers the ratio – as long as there is a supply
for it to be the ratio of.
-/

namespace LinearCurve

open Math FixedPoint Relation

variable {c : LinearCurve} {st st' : CurveState} {op : Op} {x q : U256}

/-! ## The rounding of each quote

With a supply, each quote is a proportion rounded against the trader. These
are the four inequalities that say so, cleared of their divisions. -/

theorem deposit_mul_le (h : Curve.previewDeposit c x st = .ok q)
    (hS : 0 < st.totalShares.toNat) :
    q.toNat * st.totalAssets.toNat ≤ x.toNat * st.totalShares.toNat := by
  obtain ⟨h0, -⟩ | ⟨-, -, hq⟩ := previewDeposit_spec h
  · omega
  · rw [hq]
    exact Nat.div_mul_le_self _ _

theorem mint_mul_le (h : Curve.previewMint c x st = .ok q)
    (hS : 0 < st.totalShares.toNat) :
    x.toNat * st.totalAssets.toNat ≤ q.toNat * st.totalShares.toNat := by
  obtain ⟨h0, -⟩ | ⟨-, hq⟩ := previewMint_spec h
  · omega
  · rw [Nat.mul_comm q.toNat]
    exact (ceilDiv_le_iff_le_mul hS).mp hq.ge

theorem redeem_mul_le (h : Curve.previewRedeem c x st = .ok q)
    (hS : 0 < st.totalShares.toNat) :
    q.toNat * st.totalShares.toNat ≤ x.toNat * st.totalAssets.toNat := by
  obtain ⟨-, ⟨h0, -⟩ | ⟨-, hq⟩⟩ := previewRedeem_spec h
  · omega
  · rw [hq]
    exact Nat.div_mul_le_self _ _

theorem withdraw_mul_le (h : Curve.previewWithdraw c x st = .ok q)
    (hS : 0 < st.totalShares.toNat) :
    x.toNat * st.totalShares.toNat ≤ q.toNat * st.totalAssets.toNat := by
  obtain ⟨-, ⟨h0, -⟩ | ⟨-, hA, hq⟩⟩ := previewWithdraw_spec h
  · omega
  · rw [Nat.mul_comm q.toNat]
    exact (ceilDiv_le_iff_le_mul hA).mp hq.ge

/-! ## The price -/

/-- The price of a share: the ratio of the totals. -/
def price (st : CurveState) : ℚ := st.totalAssets.toNat / st.totalShares.toNat

theorem price_le_price_iff (hS : 0 < st.totalShares.toNat)
    (hS' : 0 < st'.totalShares.toNat) :
    price st ≤ price st' ↔
      st.totalAssets.toNat * st'.totalShares.toNat
        ≤ st'.totalAssets.toNat * st.totalShares.toNat := by
  rw [price, price, div_le_div_iff₀ (by exact_mod_cast hS) (by exact_mod_cast hS')]
  exact_mod_cast Iff.rfl

/-- **A trade that leaves a supply does not lower the price.** -/
theorem price_le_of_trade (h : Trade c op x q st st')
    (hS' : 0 < st'.totalShares.toNat) : price st ≤ price st' := by
  obtain ⟨hq, hs⟩ := h
  by_cases hS : st.totalShares.toNat = 0
  · -- without a supply the ratio is zero by convention
    rw [price, hS, Nat.cast_zero, div_zero]
    exact div_nonneg (Nat.cast_nonneg _) (Nat.cast_nonneg _)
  · have hS := Nat.pos_of_ne_zero hS
    rw [price_le_price_iff hS hS']
    cases op with
    | deposit =>
      have hr := deposit_mul_le hq hS
      rw [hs.1, hs.2]
      linarith
    | mint =>
      have hr := mint_mul_le hq hS
      rw [hs.1, hs.2]
      linarith
    | redeem =>
      have hr := redeem_mul_le hq hS
      rw [← hs.1, ← hs.2] at hr ⊢
      linarith
    | withdraw =>
      have hr := withdraw_mul_le hq hS
      rw [← hs.1, ← hs.2] at hr ⊢
      linarith

/-- A trade that leaves a supply. -/
def LiveTradeStep (c : LinearCurve) (st st' : CurveState) : Prop :=
  TradeStep c st st' ∧ 0 < st'.totalShares.toNat

/-- **The price of a share never falls**: along any run of trades on which
the supply stays positive, the final ratio of the totals is at least the
first. -/
theorem price_never_falls (c : LinearCurve) {st st' : CurveState}
    (hS : 0 < st.totalShares.toNat) (h : ReflTransGen (LiveTradeStep c) st st') :
    st.totalAssets.toNat * st'.totalShares.toNat
      ≤ st'.totalAssets.toNat * st.totalShares.toNat := by
  have hS' : 0 < st'.totalShares.toNat :=
    Run.invariant (P := fun s => 0 < s.totalShares.toNat) (fun _ _ _ hstep => hstep.2) h hS
  rw [← price_le_price_iff hS hS']
  exact Run.monotone price
    (fun _ _ ⟨⟨_, _, _, ht⟩, hpos⟩ => price_le_of_trade ht hpos) h

/-- A deposit of two at the price three halves buys one share, and the price
rises. -/
theorem price_never_falls_deposit :
    (3#256).toNat * (3#256).toNat ≤ (5#256).toNat * (2#256).toNat :=
  @price_never_falls ⟨⟩ ⟨3#256, 2#256⟩ ⟨5#256, 3#256⟩ (by decide)
    (.single ⟨⟨.deposit, 2#256, 1#256, by decide +kernel, by decide +kernel⟩, by decide⟩)

end LinearCurve
