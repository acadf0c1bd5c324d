import IntuitionCore.Curves.Linear
import IntuitionCore.Curves.OffsetProgressive
import Mathlib.Logic.Relation

/-!
# Trading against a curve

A vault is traded against with the four operations a curve quotes. A trade
names one of the two amounts and is quoted the other, and the totals of the
vault move by exactly these two: this is what the quotes are for, and it is
the only way in which the totals of this model ever change.

The amounts of a settlement are equations between natural numbers, so a trade
that would leave negative totals, or totals that do not fit, is not a trade.
-/

open Relation

/-- The four operations. -/
inductive Op where
  /-- Put a given amount of assets in, for shares. -/
  | deposit
  /-- Get a given amount of shares, for assets. -/
  | mint
  /-- Give a given amount of shares back, for assets. -/
  | redeem
  /-- Take a given amount of assets out, for shares. -/
  | withdraw
  deriving DecidableEq, Repr

namespace Op

variable {C : Type} [Curve C]

/-- The quote of an operation on a given amount. -/
def preview (c : C) : Op → U256 → CurveState → Except CurveError U256
  | deposit => Curve.previewDeposit c
  | mint => Curve.previewMint c
  | redeem => Curve.previewRedeem c
  | withdraw => Curve.previewWithdraw c

/-- The totals before and after an operation on the amount `x`, quoted `q`. -/
def Settles (op : Op) (x q : U256) (st st' : CurveState) : Prop :=
  match op with
  | deposit =>
    st'.totalAssets.toNat = st.totalAssets.toNat + x.toNat ∧
      st'.totalShares.toNat = st.totalShares.toNat + q.toNat
  | mint =>
    st'.totalAssets.toNat = st.totalAssets.toNat + q.toNat ∧
      st'.totalShares.toNat = st.totalShares.toNat + x.toNat
  | redeem =>
    st'.totalAssets.toNat + q.toNat = st.totalAssets.toNat ∧
      st'.totalShares.toNat + x.toNat = st.totalShares.toNat
  | withdraw =>
    st'.totalAssets.toNat + x.toNat = st.totalAssets.toNat ∧
      st'.totalShares.toNat + q.toNat = st.totalShares.toNat

instance (op : Op) (x q : U256) (st st' : CurveState) :
    Decidable (op.Settles x q st st') := by
  cases op <;> exact inferInstanceAs (Decidable (_ ∧ _))

end Op

/-- A trade: an operation that was quoted, and settled at the quote. -/
structure Trade {C : Type} [Curve C] (c : C) (op : Op) (x q : U256)
    (st st' : CurveState) : Prop where
  /-- The curve quoted `q` for `x`. -/
  quoted : op.preview c x st = .ok q
  /-- The totals moved by `x` and `q`. -/
  settled : op.Settles x q st st'

/-- One trade, of any kind and amount. -/
def TradeStep {C : Type} [Curve C] (c : C) (st st' : CurveState) : Prop :=
  ∃ op x q, Trade c op x q st st'

/-- Any number of trades. -/
abbrev Trades {C : Type} [Curve C] (c : C) : CurveState → CurveState → Prop :=
  ReflTransGen (TradeStep c)
