import IntuitionCore.Curves.Solvency
import IntuitionCore.Curves.Price

/-!
# Splitting an order never beats placing it at once

An order can be placed in two parts, the second quoted on the totals the
first one left. Whoever places it gains nothing by that: two deposits mint at
most the shares of one, two redemptions pay at most the assets of one, two
mints charge at least, two withdrawals burn at least.

On the progressive curve the first part only moves the point the second
starts from, and rounding it moves that point the wrong way for the trader.
On the linear curve the first part of a redemption or of a withdrawal does
move the price in the trader's favour, by the remainder of its division; but
the second part is then too small for that remainder to reach a whole unit.
-/

open Math FixedPoint

/-- The quote of an order placed in two parts is no better for the trader
than the quote of the whole: no more when it is received, no less when it is
paid. -/
def Op.NoBetter (op : Op) (parts whole : ℕ) : Prop :=
  match op with
  | .deposit | .redeem => parts ≤ whole
  | .mint | .withdraw => whole ≤ parts

/-- Placing an order in two parts is never better than placing it at once. -/
def Curve.SplitNeverBeats (C : Type) [Curve C] : Prop :=
  ∀ (c : C) (op : Op) (st st₁ st₂ st' : CurveState) (x y z q₁ q₂ q : U256),
    Trade c op x q₁ st st₁ → Trade c op y q₂ st₁ st₂ →
    z.toNat = x.toNat + y.toNat → Trade c op z q st st' →
    op.NoBetter (q₁.toNat + q₂.toNat) q.toNat

/-! ## The progressive curve -/

namespace OffsetProgressiveCurve

variable {c : OffsetProgressiveCurve} {st st₁ : CurveState} {x y z q₁ q₂ q : U256}

theorem deposit_split (h₁ : Trade c .deposit x q₁ st st₁)
    (h₂ : Curve.previewDeposit c y st₁ = .ok q₂) (hz : z.toNat = x.toNat + y.toNat)
    (h : Curve.previewDeposit c z st = .ok q) : q₁.toNat + q₂.toNat ≤ q.toNat := by
  obtain ⟨-, -, -, hs₁⟩ := previewDeposit_spec h₁.quoted
  obtain ⟨-, -, -, hs₂⟩ := previewDeposit_spec h₂
  obtain ⟨-, -, -, hs⟩ := previewDeposit_spec h
  have hmid := c.offsetSupply_add h₁.settled.2
  -- squaring the root of the first part gives back at most what it was the root of
  have hsq : squareDown unit.toNat (c.offsetSupply st₁)
      ≤ squareDown unit.toNat (c.offsetSupply st)
        + x.toNat * unit.toNat / c.halfSlope.toNat := by
    rw [hmid, hs₁]
    exact squareDown_sqrtDown_le unit_pos _
  have hdiv : x.toNat * unit.toNat / c.halfSlope.toNat
      + y.toNat * unit.toNat / c.halfSlope.toNat
      ≤ z.toNat * unit.toNat / c.halfSlope.toNat := by
    rw [hz, Nat.add_mul]
    exact Nat.div_add_div_le_add_div
  have hroot := sqrtDown_mono (u := unit.toNat)
    (show squareDown unit.toNat (c.offsetSupply st₁)
        + y.toNat * unit.toNat / c.halfSlope.toNat
      ≤ squareDown unit.toNat (c.offsetSupply st)
        + z.toNat * unit.toNat / c.halfSlope.toNat by omega)
  omega

theorem mint_split (h₁ : Trade c .mint x q₁ st st₁)
    (h₂ : Curve.previewMint c y st₁ = .ok q₂) (hz : z.toNat = x.toNat + y.toNat)
    (h : Curve.previewMint c z st = .ok q) : q.toNat ≤ q₁.toNat + q₂.toNat := by
  obtain ⟨-, -, -, hq₁⟩ := previewMint_spec h₁.quoted
  obtain ⟨-, -, -, hq₂⟩ := previewMint_spec h₂
  obtain ⟨-, -, -, hq⟩ := previewMint_spec h
  have hmid := c.offsetSupply_add h₁.settled.2
  have hle := squareDown_le_squareUp unit.toNat (c.offsetSupply st + x.toNat)
  rw [hmid, Nat.add_assoc, ← hz] at hq₂
  -- the square between the two parts is charged for rounded up and credited rounded down
  rw [hq, hq₁, hq₂]
  refine (ceilDiv_mono unit_pos ?_).trans (ceilDiv_add_le unit_pos _ _)
  rw [← Nat.add_mul]
  exact Nat.mul_le_mul_right _ (by omega)

theorem redeem_split (h₁ : Trade c .redeem x q₁ st st₁)
    (h₂ : Curve.previewRedeem c y st₁ = .ok q₂) (hz : z.toNat = x.toNat + y.toNat)
    (h : Curve.previewRedeem c z st = .ok q) : q₁.toNat + q₂.toNat ≤ q.toNat := by
  obtain ⟨-, hx, hq₁⟩ := previewRedeem_eq_ok.mp h₁.quoted
  obtain ⟨-, -, hq₂⟩ := previewRedeem_eq_ok.mp h₂
  obtain ⟨-, -, hq⟩ := previewRedeem_eq_ok.mp h
  have hmid := c.offsetSupply_sub h₁.settled.2
  rw [hmid, Nat.sub_sub, ← hz] at hq₂
  have hle₁ := squareDown_mono (u := unit.toNat) (Nat.sub_le (c.offsetSupply st) x.toNat)
  have hle₂ := squareDown_mono (u := unit.toNat)
    (show c.offsetSupply st - z.toNat ≤ c.offsetSupply st - x.toNat by omega)
  rw [hq, hq₁, hq₂]
  refine Nat.div_add_div_le_add_div.trans (Nat.div_le_div_right ?_)
  rw [← Nat.add_mul]
  exact Nat.mul_le_mul_right _ (by omega)

theorem withdraw_split (h₁ : Trade c .withdraw x q₁ st st₁)
    (h₂ : Curve.previewWithdraw c y st₁ = .ok q₂) (hz : z.toNat = x.toNat + y.toNat)
    (h : Curve.previewWithdraw c z st = .ok q) : q.toNat ≤ q₁.toNat + q₂.toNat := by
  obtain ⟨-, -, hle₁, hs₁⟩ := previewWithdraw_spec h₁.quoted
  obtain ⟨-, -, -, hs₂⟩ := previewWithdraw_spec h₂
  obtain ⟨-, -, -, hs⟩ := previewWithdraw_spec h
  have hmid := c.offsetSupply_sub h₁.settled.2
  have hsq : squareDown unit.toNat (c.offsetSupply st₁)
      ≤ squareDown unit.toNat (c.offsetSupply st)
        - (x.toNat * unit.toNat) ⌈/⌉ c.halfSlope.toNat := by
    rw [show c.offsetSupply st₁ = sqrtDown unit.toNat
      (squareDown unit.toNat (c.offsetSupply st)
        - (x.toNat * unit.toNat) ⌈/⌉ c.halfSlope.toNat) by omega]
    exact squareDown_sqrtDown_le unit_pos _
  have hdiv : (z.toNat * unit.toNat) ⌈/⌉ c.halfSlope.toNat
      ≤ (x.toNat * unit.toNat) ⌈/⌉ c.halfSlope.toNat
        + (y.toNat * unit.toNat) ⌈/⌉ c.halfSlope.toNat := by
    rw [hz, Nat.add_mul]
    exact ceilDiv_add_le c.halfSlope_pos _ _
  have hroot := sqrtDown_mono (u := unit.toNat)
    (show squareDown unit.toNat (c.offsetSupply st₁)
        - (y.toNat * unit.toNat) ⌈/⌉ c.halfSlope.toNat
      ≤ squareDown unit.toNat (c.offsetSupply st)
        - (z.toNat * unit.toNat) ⌈/⌉ c.halfSlope.toNat by omega)
  omega

end OffsetProgressiveCurve

/-! ## The linear curve

With a supply, what has to be shown is a proportion between the totals the
order was placed on, and what the second part gives is a proportion between
those the first part left. -/

namespace LinearCurve

variable {c : LinearCurve} {st st₁ st₂ : CurveState} {x y z q₁ q₂ q : U256}

/-- A proportion at a price holds at a lower price. -/
theorem mul_le_of_price_le {A S A₁ S₁ k l : ℕ} (hS₁ : 0 < S₁) (h : k * A₁ ≤ l * S₁)
    (hprice : A * S₁ ≤ A₁ * S) : k * A ≤ l * S := by
  refine Nat.le_of_mul_le_mul_right ?_ hS₁
  calc k * A * S₁ = k * (A * S₁) := Nat.mul_assoc _ _ _
    _ ≤ k * (A₁ * S) := Nat.mul_le_mul_left _ hprice
    _ = k * A₁ * S := (Nat.mul_assoc _ _ _).symm
    _ ≤ l * S₁ * S := Nat.mul_le_mul_right _ h
    _ = l * S * S₁ := Nat.mul_right_comm _ _ _

/-- The price a trade leaves, cross-multiplied. -/
theorem mul_le_mul_of_trade {op : Op} (h : Trade c op x q₁ st st₁)
    (hS : 0 < st.totalShares.toNat) (hS₁ : 0 < st₁.totalShares.toNat) :
    st.totalAssets.toNat * st₁.totalShares.toNat
      ≤ st₁.totalAssets.toNat * st.totalShares.toNat :=
  (price_le_price_iff hS hS₁).mp (price_le_of_trade h hS₁)

theorem deposit_split (h₁ : Trade c .deposit x q₁ st st₁)
    (h₂ : Curve.previewDeposit c y st₁ = .ok q₂) (hz : z.toNat = x.toNat + y.toNat)
    (h : Curve.previewDeposit c z st = .ok q) : q₁.toNat + q₂.toNat ≤ q.toNat := by
  obtain ⟨hsA, hsS⟩ := h₁.settled
  obtain ⟨hS, rfl⟩ | ⟨hS, hA, hq⟩ := previewDeposit_spec h
  · -- an empty supply: the first part is worth itself, the second no more than itself
    obtain ⟨-, rfl⟩ | ⟨hS', -⟩ := previewDeposit_spec h₁.quoted
    · obtain ⟨-, rfl⟩ | ⟨hS₁, -⟩ := previewDeposit_spec h₂
      · omega
      · have h2 := mul_le_of_price_le (A := 1) (S := 1) hS₁ (deposit_mul_le h₂ hS₁)
          (by omega)
        omega
    · omega
  · have hS₁ : 0 < st₁.totalShares.toNat := by omega
    have h1 := deposit_mul_le h₁.quoted hS
    have h2 := mul_le_of_price_le hS₁ (deposit_mul_le h₂ hS₁) (mul_le_mul_of_trade h₁ hS hS₁)
    rw [hq, Nat.le_div_iff_mul_le hA, hz, Nat.add_mul, Nat.add_mul]
    exact Nat.add_le_add h1 h2

theorem mint_split (h₁ : Trade c .mint x q₁ st st₁)
    (h₂ : Curve.previewMint c y st₁ = .ok q₂) (hz : z.toNat = x.toNat + y.toNat)
    (h : Curve.previewMint c z st = .ok q) : q.toNat ≤ q₁.toNat + q₂.toNat := by
  obtain ⟨hsA, hsS⟩ := h₁.settled
  obtain ⟨hS, rfl⟩ | ⟨hS, hq⟩ := previewMint_spec h
  · obtain ⟨-, rfl⟩ | ⟨hS', -⟩ := previewMint_spec h₁.quoted
    · obtain ⟨-, rfl⟩ | ⟨hS₁, -⟩ := previewMint_spec h₂
      · omega
      · have h2 := mul_le_of_price_le (A := 1) (S := 1) hS₁ (mint_mul_le h₂ hS₁) (by omega)
        omega
    · omega
  · have hS₁ : 0 < st₁.totalShares.toNat := by omega
    have h1 := mint_mul_le h₁.quoted hS
    have h2 := mul_le_of_price_le hS₁ (mint_mul_le h₂ hS₁) (mul_le_mul_of_trade h₁ hS hS₁)
    rw [hq, ceilDiv_le_iff_le_mul hS, hz, Nat.mul_comm _ (_ + _), Nat.add_mul, Nat.add_mul]
    exact Nat.add_le_add h1 h2

/-- The first part of a redemption leaves its remainder `e` in the vault; the
second part, being of at most the shares that are left, is paid at most that
remainder beyond its proportion of the first totals. -/
theorem redeem_parts_le {A S A₁ S₁ x y q₁ q₂ : ℕ} (hS₁ : 0 < S₁) (hA : A₁ + q₁ = A)
    (hS : S₁ + x = S) (h₁ : q₁ * S ≤ x * A) (h₂ : q₂ * S₁ ≤ y * A₁) (hy : y ≤ S₁) :
    (q₁ + q₂) * S ≤ (x + y) * A := by
  obtain ⟨e, he⟩ := Nat.exists_eq_add_of_le h₁
  have hleft : A₁ * S = A * S₁ + e := by
    subst hA hS
    linarith
  have hsecond : q₂ * S ≤ y * A + e := by
    refine Nat.le_of_mul_le_mul_right ?_ hS₁
    calc q₂ * S * S₁ = q₂ * S₁ * S := Nat.mul_right_comm _ _ _
      _ ≤ y * A₁ * S := Nat.mul_le_mul_right _ h₂
      _ = y * A * S₁ + y * e := by rw [Nat.mul_assoc, hleft]; ring
      _ ≤ y * A * S₁ + S₁ * e := Nat.add_le_add_left (Nat.mul_le_mul_right _ hy) _
      _ = (y * A + e) * S₁ := by ring
  rw [Nat.add_mul, Nat.add_mul, he]
  omega

/-- The first part of a withdrawal burns `e` beyond its proportion; the
second part, being of at most the assets that are left, burns at most that
much less than its proportion of the first totals. -/
theorem withdraw_parts_le {A S A₁ S₁ x y q₁ q₂ : ℕ} (hA₁ : 0 < A₁) (hA : A₁ + x = A)
    (hS : S₁ + q₁ = S) (h₁ : x * S ≤ q₁ * A) (h₂ : y * S₁ ≤ q₂ * A₁) (hy : y ≤ A₁) :
    (x + y) * S ≤ (q₁ + q₂) * A := by
  obtain ⟨e, he⟩ := Nat.exists_eq_add_of_le h₁
  have hleft : S₁ * A + e = S * A₁ := by
    subst hA hS
    linarith
  have hsecond : y * S ≤ q₂ * A + e := by
    refine Nat.le_of_mul_le_mul_right ?_ hA₁
    calc y * S * A₁ = y * S₁ * A + y * e := by rw [Nat.mul_assoc, ← hleft]; ring
      _ ≤ q₂ * A₁ * A + A₁ * e :=
        Nat.add_le_add (Nat.mul_le_mul_right _ h₂) (Nat.mul_le_mul_right _ hy)
      _ = (q₂ * A + e) * A₁ := by ring
  rw [Nat.add_mul, Nat.add_mul, he]
  omega

theorem redeem_split (h₁ : Trade c .redeem x q₁ st st₁)
    (h₂ : Curve.previewRedeem c y st₁ = .ok q₂) (hz : z.toNat = x.toNat + y.toNat)
    (h : Curve.previewRedeem c z st = .ok q) : q₁.toNat + q₂.toNat ≤ q.toNat := by
  obtain ⟨hsA, hsS⟩ := h₁.settled
  obtain ⟨-, ⟨hS, rfl⟩ | ⟨hS, hq⟩⟩ := previewRedeem_spec h
  · obtain ⟨-, ⟨-, rfl⟩ | ⟨hS', -⟩⟩ := previewRedeem_spec h₁.quoted
    · obtain ⟨-, ⟨-, rfl⟩ | ⟨hS₁, -⟩⟩ := previewRedeem_spec h₂ <;> omega
    · omega
  · have h1 := redeem_mul_le h₁.quoted hS
    rw [hq, Nat.le_div_iff_mul_le hS, hz]
    obtain ⟨hy, ⟨hS₁, rfl⟩ | ⟨hS₁, -⟩⟩ := previewRedeem_spec h₂
    · -- the first part redeemed the whole supply, and the second nothing
      have hy0 : q₂.toNat = 0 := by omega
      rw [hy0, Nat.add_zero, Nat.add_zero]
      exact h1
    · exact redeem_parts_le hS₁ hsA hsS h1 (redeem_mul_le h₂ hS₁) hy

theorem withdraw_split (h₁ : Trade c .withdraw x q₁ st st₁)
    (h₂ : Trade c .withdraw y q₂ st₁ st₂) (hz : z.toNat = x.toNat + y.toNat)
    (h : Curve.previewWithdraw c z st = .ok q) : q.toNat ≤ q₁.toNat + q₂.toNat := by
  obtain ⟨hsA, hsS⟩ := h₁.settled
  obtain ⟨hsA₂, hsS₂⟩ := h₂.settled
  obtain ⟨-, ⟨hS, rfl⟩ | ⟨hS, hA, hq⟩⟩ := previewWithdraw_spec h
  · obtain ⟨-, ⟨-, rfl⟩ | ⟨hS', -⟩⟩ := previewWithdraw_spec h₁.quoted
    · obtain ⟨-, ⟨-, rfl⟩ | ⟨hS₁, -⟩⟩ := previewWithdraw_spec h₂.quoted <;> omega
    · omega
  · have h1 := withdraw_mul_le h₁.quoted hS
    rw [hq, ceilDiv_le_iff_le_mul hA, hz, Nat.mul_comm _ (_ + _)]
    obtain ⟨hy, ⟨hS₁, rfl⟩ | ⟨hS₁, hA₁, -⟩⟩ := previewWithdraw_spec h₂.quoted
    · -- the first part burned the whole supply, so the second burns nothing
      have hy0 : q₂.toNat = 0 := by omega
      rw [hy0, Nat.add_zero, Nat.add_zero]
      exact h1
    · exact withdraw_parts_le hA₁ hsA hsS h1 (withdraw_mul_le h₂.quoted hS₁) hy

end LinearCurve

/-! ## Both curves -/

/-- **Splitting an order never beats placing it at once**, for any of the
four operations on either curve. -/
theorem split_never_beats :
    Curve.SplitNeverBeats OffsetProgressiveCurve ∧ Curve.SplitNeverBeats LinearCurve := by
  constructor
  · intro c op st st₁ st₂ st' x y z q₁ q₂ q h₁ h₂ hz h
    cases op with
    | deposit => exact OffsetProgressiveCurve.deposit_split h₁ h₂.quoted hz h.quoted
    | mint => exact OffsetProgressiveCurve.mint_split h₁ h₂.quoted hz h.quoted
    | redeem => exact OffsetProgressiveCurve.redeem_split h₁ h₂.quoted hz h.quoted
    | withdraw => exact OffsetProgressiveCurve.withdraw_split h₁ h₂.quoted hz h.quoted
  · intro c op st st₁ st₂ st' x y z q₁ q₂ q h₁ h₂ hz h
    cases op with
    | deposit => exact LinearCurve.deposit_split h₁ h₂.quoted hz h.quoted
    | mint => exact LinearCurve.mint_split h₁ h₂.quoted hz h.quoted
    | redeem => exact LinearCurve.redeem_split h₁ h₂.quoted hz h.quoted
    | withdraw => exact LinearCurve.withdraw_split h₁ h₂ hz h.quoted

/-- At the price three halves, redeeming one share and then the other pays one
and then two, and redeeming both at once pays three. -/
theorem split_never_beats_redeem : (1#256).toNat + (2#256).toNat ≤ (3#256).toNat :=
  split_never_beats.2 ⟨⟩ .redeem ⟨3#256, 2#256⟩ ⟨2#256, 1#256⟩ ⟨0#256, 0#256⟩ ⟨0#256, 0#256⟩
    1#256 1#256 2#256 1#256 2#256 3#256 ⟨by decide +kernel, by decide +kernel⟩
    ⟨by decide +kernel, by decide +kernel⟩ (by decide)
    ⟨by decide +kernel, by decide +kernel⟩
