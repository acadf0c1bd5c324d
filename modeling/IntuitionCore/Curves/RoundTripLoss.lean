import IntuitionCore.Curves.RoundTrip

/-!
# What a round trip loses

A deposit that is redeemed at once is rounded four times on the progressive
curve: the assets are divided by the half slope, the squares are divided by
the unit, a root is taken, and the area given back is divided by the unit
again. Each rounding is against the depositor, so the loss is never negative;
this module bounds it from above. The root is what makes the bound depend on
the supply: of the square it is taken of, it loses up to twice itself.

On the linear curve there are two roundings, of the shares and of what they
are paid, and the first is worth at most the price of one share.
-/

open Math FixedPoint Result

/-- The totals after a deposit of the assets `a` for the shares `n`. -/
def CurveState.deposited (st : CurveState) (a n : U256) : CurveState :=
  ⟨st.totalAssets + a, st.totalShares + n⟩

/-- The sums of a deposit that stays within 256 bits do not wrap. -/
theorem CurveState.settles_deposited {st : CurveState} {a n : U256}
    (hA : st.totalAssets.toNat + a.toNat ≤ maxU256)
    (hS : st.totalShares.toNat + n.toNat ≤ maxU256) :
    Op.deposit.Settles a n st (st.deposited a n) := by
  have hmax : maxU256 < 2 ^ 256 := by decide
  refine ⟨?_, ?_⟩
  · show (st.totalAssets + a).toNat = _
    rw [BitVec.toNat_add, Nat.mod_eq_of_lt (by omega)]
  · show (st.totalShares + n).toNat = _
    rw [BitVec.toNat_add, Nat.mod_eq_of_lt (by omega)]

/-! ## The progressive curve -/

namespace OffsetProgressiveCurve

variable {c : OffsetProgressiveCurve} {st : CurveState} {a n : U256}

/-- A deposit adds, to the area, what it pays for less the roundings of the
division and of the root. -/
theorem lt_area_deposit (h : Curve.previewDeposit c a st = .ok n) :
    a.toNat * unit.toNat < c.area (c.offsetSupply st + n.toNat)
      - c.area (c.offsetSupply st)
      + c.halfSlope.toNat * (1 + (2 * (c.offsetSupply st + n.toNat)) ⌈/⌉ unit.toNat) := by
  obtain ⟨-, -, -, hs⟩ := previewDeposit_spec h
  set s := c.offsetSupply st
  set d := a.toNat * unit.toNat / c.halfSlope.toNat with hd
  -- the root loses at most twice itself
  have hroot : squareDown unit.toNat s + d
      ≤ squareDown unit.toNat (s + n.toNat)
        + (2 * (s + n.toNat)) ⌈/⌉ unit.toNat := by
    have hle := le_squareDown_sqrtDown unit_pos (squareDown unit.toNat s + d)
    rwa [← hs] at hle
  -- and the division less than the half slope
  have hdiv : a.toNat * unit.toNat < c.halfSlope.toNat * d + c.halfSlope.toNat := by
    have hlt := Nat.mod_lt (a.toNat * unit.toNat) c.halfSlope_pos
    have hmod := Nat.div_add_mod (a.toNat * unit.toNat) c.halfSlope.toNat
    rw [← hd] at hmod
    omega
  have hstep : d ≤ squareDown unit.toNat (s + n.toNat) - squareDown unit.toNat s
      + (2 * (s + n.toNat)) ⌈/⌉ unit.toNat := by
    omega
  calc a.toNat * unit.toNat < c.halfSlope.toNat * d + c.halfSlope.toNat := hdiv
    _ ≤ c.halfSlope.toNat * (squareDown unit.toNat (s + n.toNat)
          - squareDown unit.toNat s + (2 * (s + n.toNat)) ⌈/⌉ unit.toNat)
          + c.halfSlope.toNat :=
        Nat.add_le_add_right (Nat.mul_le_mul_left _ hstep) _
    _ = c.area (s + n.toNat) - c.area s
          + c.halfSlope.toNat * (1 + (2 * (s + n.toNat)) ⌈/⌉ unit.toNat) := by
        rw [area, area, ← Nat.sub_mul]
        ring

/-- **A deposit can be redeemed at once, and loses a bounded amount.** -/
theorem redeem_deposited (h : Curve.previewDeposit c a st = .ok n) :
    Op.deposit.Settles a n st (st.deposited a n) ∧
      ∃ out, Curve.previewRedeem c n (st.deposited a n) = .ok out ∧
        out.toNat ≤ a.toNat ∧
        unit.toNat * (a.toNat - out.toNat)
          < unit.toNat + c.halfSlope.toNat
            * (1 + (2 * c.offsetSupply (st.deposited a n)) ⌈/⌉ unit.toNat) := by
  obtain ⟨-, hA, hS, -⟩ := previewDeposit_spec h
  have hset : Op.deposit.Settles a n st (st.deposited a n) :=
    CurveState.settles_deposited (hA.trans (toNat_le_max _)) (hS.trans (toNat_le_max _))
  have hsupply := c.offsetSupply_add hset.2
  have hgain := area_deposit_le h
  -- what the redemption gives back of the area is what the deposit added
  have hback : (squareDown unit.toNat (c.offsetSupply (st.deposited a n))
      - squareDown unit.toNat (c.offsetSupply (st.deposited a n) - n.toNat))
        * c.halfSlope.toNat
      = c.area (c.offsetSupply st + n.toNat) - c.area (c.offsetSupply st) := by
    rw [hsupply, Nat.add_sub_cancel, Nat.sub_mul, ← area, ← area]
  have hfits : (c.area (c.offsetSupply st + n.toNat) - c.area (c.offsetSupply st))
      / unit.toNat ≤ a.toNat :=
    Nat.div_le_of_le_mul (by rw [Nat.mul_comm]; omega)
  obtain ⟨out, hout⟩ := exists_toNat_eq (hfits.trans (toNat_le_max a))
  have hdom : Curve.InDomain c (st.deposited a n) := by
    refine ⟨?_, ?_⟩
    · rw [hset.1]
      exact hA
    · rw [hset.2]
      exact hS
  refine ⟨hset, out, previewRedeem_eq_ok.mpr ⟨hdom, ?_, ?_⟩, hout.trans_le hfits, ?_⟩
  · rw [hset.2]
    exact Nat.le_add_left _ _
  · rw [hout, hback]
  · have hlt := lt_area_deposit h
    have hmod := Nat.div_add_mod
      (c.area (c.offsetSupply st + n.toNat) - c.area (c.offsetSupply st)) unit.toNat
    have hrem := Nat.mod_lt
      (c.area (c.offsetSupply st + n.toNat) - c.area (c.offsetSupply st)) unit_pos
    rw [← hout] at hmod
    rw [hsupply, Nat.mul_sub, Nat.mul_comm unit.toNat a.toNat]
    omega

end OffsetProgressiveCurve

/-! ## The linear curve -/

namespace LinearCurve

variable {c : LinearCurve} {st : CurveState} {a n : U256}

/-- **A deposit can be redeemed at once, and loses less than a unit and the
price of a share.** -/
theorem redeem_deposited (hA : 0 < st.totalAssets.toNat) (hS : 0 < st.totalShares.toNat)
    (h : Curve.previewDeposit c a st = .ok n) :
    Op.deposit.Settles a n st (st.deposited a n) ∧
      ∃ out, Curve.previewRedeem c n (st.deposited a n) = .ok out ∧
        out.toNat ≤ a.toNat ∧
        (st.totalShares.toNat + n.toNat) * (a.toNat - out.toNat)
          < (st.totalShares.toNat + n.toNat) + st.totalAssets.toNat := by
  obtain ⟨hAa, hSn⟩ := previewDeposit_fits h
  have hset : Op.deposit.Settles a n st (st.deposited a n) :=
    CurveState.settles_deposited hAa hSn
  have hS' : 0 < (st.deposited a n).totalShares.toNat := by
    rw [hset.2]
    omega
  -- the shares fall short of the depositor's part by less than one
  have hshares : a.toNat * st.totalShares.toNat
      < n.toNat * st.totalAssets.toNat + st.totalAssets.toNat := by
    obtain ⟨h0, -⟩ | ⟨-, -, hn⟩ := previewDeposit_spec h
    · omega
    · have hmod := Nat.div_add_mod (a.toNat * st.totalShares.toNat) st.totalAssets.toNat
      have hlt := Nat.mod_lt (a.toNat * st.totalShares.toNat) hA
      rw [← hn, Nat.mul_comm st.totalAssets.toNat] at hmod
      omega
  have hpart := deposit_mul_le h hS
  set paid := n.toNat * (st.totalAssets.toNat + a.toNat) / (st.totalShares.toNat + n.toNat)
    with hpaid
  have hmod := Nat.div_add_mod (n.toNat * (st.totalAssets.toNat + a.toNat))
    (st.totalShares.toNat + n.toNat)
  have hlt := Nat.mod_lt (n.toNat * (st.totalAssets.toNat + a.toNat))
    (show 0 < st.totalShares.toNat + n.toNat by omega)
  rw [← hpaid, Nat.mul_add n.toNat] at hmod
  rw [Nat.mul_add n.toNat] at hlt
  have hle : paid ≤ a.toNat := by
    refine Nat.le_of_mul_le_mul_left ?_ (show 0 < st.totalShares.toNat + n.toNat by omega)
    rw [Nat.add_mul st.totalShares.toNat n.toNat a.toNat, Nat.mul_comm st.totalShares.toNat]
    omega
  obtain ⟨out, hout⟩ := exists_toNat_eq (hle.trans (toNat_le_max a))
  refine ⟨hset, out, previewRedeem_eq_ok_of_le hS' ?_ ?_, hout.trans_le hle, ?_⟩
  · rw [hset.2]
    exact Nat.le_add_left _ _
  · rw [hset.1, hset.2, hout]
  · rw [hout, Nat.mul_sub, Nat.add_mul st.totalShares.toNat n.toNat a.toNat,
      Nat.mul_comm st.totalShares.toNat]
    omega

end LinearCurve

/-- **The loss of a round trip is bounded.** On the progressive curve, with
half slope `h` and `s'` the offset supply after the deposit, redeeming at once
what a deposit bought is quoted, pays no more than the deposit, and falls short
of it by less than `1 + h * (1 + ⌈2 s' / u⌉) / u` for the unit `u`; on a linear
curve with assets `A` and `S` shares, by less than `1 + A / (S + n)`. -/
theorem round_trip_loss :
    (∀ (c : OffsetProgressiveCurve) (st : CurveState) (a n : U256),
      Curve.previewDeposit c a st = .ok n →
      Op.deposit.Settles a n st (st.deposited a n) ∧
        ∃ out, Curve.previewRedeem c n (st.deposited a n) = .ok out ∧
          out.toNat ≤ a.toNat ∧
          unit.toNat * (a.toNat - out.toNat)
            < unit.toNat + c.halfSlope.toNat
              * (1 + (2 * c.offsetSupply (st.deposited a n)) ⌈/⌉ unit.toNat)) ∧
      ∀ (c : LinearCurve) (st : CurveState) (a n : U256),
        0 < st.totalAssets.toNat → 0 < st.totalShares.toNat →
        Curve.previewDeposit c a st = .ok n →
        Op.deposit.Settles a n st (st.deposited a n) ∧
          ∃ out, Curve.previewRedeem c n (st.deposited a n) = .ok out ∧
            out.toNat ≤ a.toNat ∧
            (st.totalShares.toNat + n.toNat) * (a.toNat - out.toNat)
              < (st.totalShares.toNat + n.toNat) + st.totalAssets.toNat :=
  ⟨fun _ _ _ _ h => OffsetProgressiveCurve.redeem_deposited h,
    fun _ _ _ _ hA hS h => LinearCurve.redeem_deposited hA hS h⟩

/-- Two deposited in the empty vault of the doubling curve buy the root of
twice the unit, whose square is rounded away by less than the bound; one
deposited in a linear vault of three for two buys nothing at all. -/
theorem round_trip_loss_small :
    (∃ out, Curve.previewRedeem OffsetProgressiveCurve.doubling 1414213562#256
        ⟨2#256, 1414213562#256⟩ = .ok out ∧
      unit.toNat * (2 - out.toNat) < unit.toNat + unit.toNat * (1 + 1)) ∧
      ∃ out, Curve.previewRedeem (⟨⟩ : LinearCurve) 0#256 ⟨4#256, 2#256⟩ = .ok out ∧
        (2 + 0) * (1 - out.toNat) < (2 + 0) + 3 := by
  obtain ⟨-, out, hout, -, hlt⟩ := round_trip_loss.1 OffsetProgressiveCurve.doubling {}
    2#256 1414213562#256 (by decide +kernel)
  obtain ⟨-, out', hout', -, hlt'⟩ := round_trip_loss.2 ⟨⟩ ⟨3#256, 2#256⟩ 1#256 0#256
    (by decide) (by decide) (by decide +kernel)
  exact ⟨⟨out, hout, hlt⟩, out', hout', hlt'⟩
