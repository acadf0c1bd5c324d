import IntuitionCore.Curves.Solvency
import IntuitionCore.Curves.Price

/-!
# Asking for assets and asking for shares

A trader can put a given amount of assets in, or get a given amount of shares:
a deposit and a mint are two ways to ask for one exchange. That their quotes
agree is an adjunction – a mint quotes the least deposit that buys its shares,
a deposit the most shares it buys – and it is an equivalence at every amount,
with no unit of tolerance.

On the way out the linear curve has the same adjunction between withdrawals
and redemptions. The progressive curve has half of it: burning at least what
a withdrawal quotes pays at least what was withdrawn.
-/

namespace Curve

/-- A deposit of `a` buys `n` shares exactly when minting `n` shares costs at
most `a`. -/
def MintInvertsDeposit (C : Type) [Curve C] : Prop :=
  ∀ (c : C) (st : CurveState) (a m n q : U256),
    previewDeposit c a st = .ok m → previewMint c n st = .ok q → (n ≤ m ↔ q ≤ a)

/-- Redeeming `n` shares pays `a` exactly when withdrawing `a` burns at most
`n` shares. -/
def WithdrawInvertsRedeem (C : Type) [Curve C] : Prop :=
  ∀ (c : C) (st : CurveState) (a m n q : U256),
    previewWithdraw c a st = .ok m → previewRedeem c n st = .ok q → (m ≤ n ↔ a ≤ q)

/-- Redeeming at least the shares a withdrawal of `a` burns pays at least
`a`. -/
def WithdrawCoversRedeem (C : Type) [Curve C] : Prop :=
  ∀ (c : C) (st : CurveState) (a m n q : U256),
    previewWithdraw c a st = .ok m → previewRedeem c n st = .ok q → m ≤ n → a ≤ q

end Curve

open Math FixedPoint

namespace OffsetProgressiveCurve

/-- The root a deposit takes is the adjoint of the square a mint takes, and
the division by the half slope the adjoint of the multiplication by it. -/
theorem mintInvertsDeposit : Curve.MintInvertsDeposit OffsetProgressiveCurve := by
  intro c st a m n q hm hq
  obtain ⟨-, -, -, hs⟩ := previewDeposit_spec hm
  obtain ⟨-, -, -, hq⟩ := previewMint_spec hq
  rw [BitVec.le_def, BitVec.le_def]
  calc n.toNat ≤ m.toNat
      ↔ c.offsetSupply st + n.toNat ≤ c.offsetSupply st + m.toNat :=
        (Nat.add_le_add_iff_left).symm
    _ ↔ squareUp unit.toNat (c.offsetSupply st + n.toNat)
          ≤ squareDown unit.toNat (c.offsetSupply st)
            + a.toNat * unit.toNat / c.halfSlope.toNat := by
        rw [hs, squareUp_le_iff unit_pos]
    _ ↔ squareUp unit.toNat (c.offsetSupply st + n.toNat)
          - squareDown unit.toNat (c.offsetSupply st)
          ≤ a.toNat * unit.toNat / c.halfSlope.toNat :=
        (Nat.sub_le_iff_le_add').symm
    _ ↔ q.toNat ≤ a.toNat := by
        rw [Nat.le_div_iff_mul_le c.halfSlope_pos, hq, ceilDiv_le_iff_le_mul unit_pos,
          Nat.mul_comm unit.toNat]

/-- Both areas are compared with the area below the supply: what a withdrawal
leaves of it is enough for what a redemption leaves. -/
theorem withdrawCoversRedeem : Curve.WithdrawCoversRedeem OffsetProgressiveCurve := by
  intro c st a m n q hm hq hmn
  rw [BitVec.le_def] at hmn ⊢
  have hw := area_withdraw_le hm
  have hrest : c.area (c.offsetSupply st - n.toNat) ≤ c.area (c.offsetSupply st - m.toNat) :=
    area_mono (Nat.sub_le_sub_left hmn _)
  obtain ⟨-, -, hq⟩ := previewRedeem_eq_ok.mp hq
  rw [Nat.sub_mul, ← area, ← area] at hq
  rw [hq, Nat.le_div_iff_mul_le unit_pos]
  omega

end OffsetProgressiveCurve

namespace LinearCurve

theorem mintInvertsDeposit : Curve.MintInvertsDeposit LinearCurve := by
  intro c st a m n q hm hq
  rw [BitVec.le_def, BitVec.le_def]
  obtain ⟨hS, rfl⟩ | ⟨hS, hA, hm⟩ := previewDeposit_spec hm
  · obtain ⟨-, rfl⟩ | ⟨hS', -⟩ := previewMint_spec hq
    · exact Iff.rfl
    · omega
  · obtain ⟨hS', -⟩ | ⟨-, hq⟩ := previewMint_spec hq
    · omega
    · rw [hm, hq, Nat.le_div_iff_mul_le hA, ceilDiv_le_iff_le_mul hS, Nat.mul_comm a.toNat]

theorem withdrawInvertsRedeem : Curve.WithdrawInvertsRedeem LinearCurve := by
  intro c st a m n q hm hq
  rw [BitVec.le_def, BitVec.le_def]
  obtain ⟨-, ⟨hS, rfl⟩ | ⟨hS, hA, hm⟩⟩ := previewWithdraw_spec hm
  · obtain ⟨-, ⟨-, rfl⟩ | ⟨hS', -⟩⟩ := previewRedeem_spec hq
    · exact Iff.rfl
    · omega
  · obtain ⟨-, ⟨hS', -⟩ | ⟨-, hq⟩⟩ := previewRedeem_spec hq
    · omega
    · rw [hm, hq, Nat.le_div_iff_mul_le hS, ceilDiv_le_iff_le_mul hA,
        Nat.mul_comm n.toNat]

end LinearCurve

/-- **Deposit and mint are inverse, withdraw covers redeem.** On both curves
a mint quotes the least deposit that buys its shares; a withdrawal quotes the
least redemption that pays its assets on the linear curve, and one that pays
at least them on the progressive curve. -/
theorem previews_galois :
    Curve.MintInvertsDeposit OffsetProgressiveCurve ∧
      Curve.MintInvertsDeposit LinearCurve ∧
      Curve.WithdrawInvertsRedeem LinearCurve ∧
      Curve.WithdrawCoversRedeem OffsetProgressiveCurve :=
  ⟨OffsetProgressiveCurve.mintInvertsDeposit, LinearCurve.mintInvertsDeposit,
    LinearCurve.withdrawInvertsRedeem, OffsetProgressiveCurve.withdrawCoversRedeem⟩

/-- At the price three halves, a deposit of ten buys six shares, and seven
would cost eleven. -/
theorem previews_galois_linear : (7#256 ≤ 6#256 ↔ 11#256 ≤ 10#256) :=
  previews_galois.2.1 ⟨⟩ ⟨3#256, 2#256⟩ 10#256 6#256 7#256 11#256
    (by decide +kernel) (by decide +kernel)
