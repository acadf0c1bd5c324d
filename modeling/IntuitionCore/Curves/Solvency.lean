import IntuitionCore.Curves.Market
import IntuitionCore.Library.Run

/-!
# The progressive curve is always solvent

The assets a progressive curve should hold behind a supply are the area under
its price up to there. What it holds is that area and a little more, every
operation being rounded in favour of the curve; the *surplus* is the
difference, and the one fact about the curve everything here rests on is that
no trade lowers it.

A curve that starts empty has surplus zero less the area below its offset, so
it can always pay for what it has issued. A cycle of trades that returns the
supply to where it was returns the area to where it was, so what it leaves
behind is never less than what it found.
-/

namespace OffsetProgressiveCurve

open Math FixedPoint Relation

variable {c : OffsetProgressiveCurve} {st st' : CurveState} {op : Op} {x q : U256}

/-- The area under the price up to an offset supply, in units. -/
def area (c : OffsetProgressiveCurve) (s : ℕ) : ℕ :=
  squareDown unit.toNat s * c.halfSlope.toNat

/-- What the curve holds beyond the area under its price, in units. -/
def surplus (c : OffsetProgressiveCurve) (st : CurveState) : ℤ :=
  st.totalAssets.toNat * unit.toNat - c.area (c.offsetSupply st)

theorem area_mono {s t : ℕ} (h : s ≤ t) : c.area s ≤ c.area t :=
  Nat.mul_le_mul_right _ (squareDown_mono h)

/-! ## What an operation does to the area -/

/-- A deposit pays for the area it adds. -/
theorem area_deposit_le (h : Curve.previewDeposit c x st = .ok q) :
    c.area (c.offsetSupply st + q.toNat)
      ≤ c.area (c.offsetSupply st) + x.toNat * unit.toNat := by
  obtain ⟨-, -, -, hs⟩ := previewDeposit_spec h
  rw [hs]
  calc c.area _
      ≤ (squareDown unit.toNat (c.offsetSupply st)
          + x.toNat * unit.toNat / c.halfSlope.toNat) * c.halfSlope.toNat :=
        Nat.mul_le_mul_right _ (squareDown_sqrtDown_le unit_pos _)
    _ = c.area (c.offsetSupply st)
          + x.toNat * unit.toNat / c.halfSlope.toNat * c.halfSlope.toNat :=
        Nat.add_mul _ _ _
    _ ≤ c.area (c.offsetSupply st) + x.toNat * unit.toNat :=
        Nat.add_le_add_left (Nat.div_mul_le_self _ _) _

/-- A mint is charged at least the area it adds. -/
theorem area_mint_le (h : Curve.previewMint c x st = .ok q) :
    c.area (c.offsetSupply st + x.toNat)
      ≤ c.area (c.offsetSupply st) + q.toNat * unit.toNat := by
  obtain ⟨-, -, -, hq⟩ := previewMint_spec h
  have hle := squareDown_le_squareUp unit.toNat (c.offsetSupply st + x.toNat)
  have hcharge := (ceilDiv_le_iff_le_mul unit_pos).mp hq.ge
  rw [Nat.mul_comm unit.toNat] at hcharge
  calc c.area (c.offsetSupply st + x.toNat)
      ≤ (squareDown unit.toNat (c.offsetSupply st)
          + (squareUp unit.toNat (c.offsetSupply st + x.toNat)
            - squareDown unit.toNat (c.offsetSupply st))) * c.halfSlope.toNat :=
        Nat.mul_le_mul_right _ (by omega)
    _ ≤ c.area (c.offsetSupply st) + q.toNat * unit.toNat := by
        rw [Nat.add_mul]
        exact Nat.add_le_add_left hcharge _

/-- A redemption is paid at most the area it gives back. -/
theorem area_redeem_le (h : Curve.previewRedeem c x st = .ok q) :
    c.area (c.offsetSupply st - x.toNat) + q.toNat * unit.toNat
      ≤ c.area (c.offsetSupply st) := by
  obtain ⟨-, -, hq⟩ := previewRedeem_eq_ok.mp h
  have hle := c.area_mono (Nat.sub_le (c.offsetSupply st) x.toNat)
  have hpay : q.toNat * unit.toNat
      ≤ c.area (c.offsetSupply st) - c.area (c.offsetSupply st - x.toNat) := by
    rw [hq, area, area, ← Nat.sub_mul]
    exact Nat.div_mul_le_self _ _
  omega

/-- A withdrawal gives back at least the area it is paid for. -/
theorem area_withdraw_le (h : Curve.previewWithdraw c x st = .ok q) :
    c.area (c.offsetSupply st - q.toNat) + x.toNat * unit.toNat
      ≤ c.area (c.offsetSupply st) := by
  obtain ⟨-, -, hle, hs⟩ := previewWithdraw_spec h
  set d := (x.toNat * unit.toNat) ⌈/⌉ c.halfSlope.toNat with hd
  have hpaid : x.toNat * unit.toNat ≤ d * c.halfSlope.toNat := by
    rw [Nat.mul_comm d]
    exact (ceilDiv_le_iff_le_mul c.halfSlope_pos).mp hd.ge
  have hnext : c.offsetSupply st - q.toNat
      = sqrtDown unit.toNat (squareDown unit.toNat (c.offsetSupply st) - d) := by
    omega
  rw [hnext]
  calc c.area _ + x.toNat * unit.toNat
      ≤ (squareDown unit.toNat (c.offsetSupply st) - d) * c.halfSlope.toNat
          + d * c.halfSlope.toNat :=
        Nat.add_le_add (Nat.mul_le_mul_right _ (squareDown_sqrtDown_le unit_pos _)) hpaid
    _ = c.area (c.offsetSupply st) := by
        rw [← Nat.add_mul, Nat.sub_add_cancel hle, area]

/-- **No trade lowers the surplus.** -/
theorem surplus_le (h : Trade c op x q st st') : c.surplus st ≤ c.surplus st' := by
  obtain ⟨hq, hs⟩ := h
  unfold surplus
  cases op with
  | deposit =>
    have ha := area_deposit_le hq
    rw [← offsetSupply_add hs.2] at ha
    rw [hs.1]
    push_cast
    linarith
  | mint =>
    have ha := area_mint_le hq
    rw [← offsetSupply_add hs.2] at ha
    rw [hs.1]
    push_cast
    linarith
  | redeem =>
    have ha := area_redeem_le hq
    rw [← offsetSupply_sub hs.2] at ha
    rw [← hs.1]
    push_cast
    linarith
  | withdraw =>
    have ha := area_withdraw_le hq
    rw [← offsetSupply_sub hs.2] at ha
    rw [← hs.1]
    push_cast
    linarith

/-- No run of trades lowers the surplus. -/
theorem surplus_le_of_trades (h : Trades c st st') : c.surplus st ≤ c.surplus st' :=
  Run.monotone c.surplus (fun _ _ ⟨_, _, _, ht⟩ => surplus_le ht) h

/-! ## Solvency -/

/-- A trade leaves the totals in the domain. -/
theorem inDomain_of_trade (h : Trade c op x q st st') : Curve.InDomain c st' := by
  obtain ⟨hq, hs⟩ := h
  unfold Curve.InDomain
  cases op with
  | deposit =>
    obtain ⟨-, hA, hS, -⟩ := previewDeposit_spec hq
    rw [hs.1, hs.2]
    exact ⟨hA, hS⟩
  | mint =>
    obtain ⟨-, hS, hA, -⟩ := previewMint_spec hq
    rw [hs.1, hs.2]
    exact ⟨hA, hS⟩
  | redeem =>
    obtain ⟨hdom, -, -⟩ := previewRedeem_eq_ok.mp hq
    exact ⟨((Nat.le_add_right _ _).trans_eq hs.1).trans hdom.1,
      ((Nat.le_add_right _ _).trans_eq hs.2).trans hdom.2⟩
  | withdraw =>
    obtain ⟨hdom, -, -, -⟩ := previewWithdraw_spec hq
    exact ⟨((Nat.le_add_right _ _).trans_eq hs.1).trans hdom.1,
      ((Nat.le_add_right _ _).trans_eq hs.2).trans hdom.2⟩

/-- An empty vault is in the domain of every curve. -/
theorem inDomain_empty : Curve.InDomain c {} := ⟨Nat.zero_le _, Nat.zero_le _⟩

/-- What a vault that started empty holds covers the area between its offset
and its offset supply. -/
theorem area_le_of_trades_empty (h : Trades c {} st) :
    c.area (c.offsetSupply st)
      ≤ st.totalAssets.toNat * unit.toNat + c.area c.offset.toNat := by
  have hle := surplus_le_of_trades h
  have hempty : c.offsetSupply {} = c.offset.toNat := Nat.zero_add _
  have hzero : (({} : CurveState).totalAssets.toNat : ℤ) = 0 := rfl
  unfold surplus at hle
  rw [hempty, hzero] at hle
  zify
  linarith

/-- **A vault that started empty can pay for every share it has issued**: in
every state trades lead to, redeeming any part of the supply is quoted, and
quoted no more than the assets the vault holds. -/
theorem redeem_payable (c : OffsetProgressiveCurve) {st : CurveState}
    (h : Trades c {} st) {n : U256} (hn : n.toNat ≤ st.totalShares.toNat) :
    ∃ out, Curve.previewRedeem c n st = .ok out ∧
      out.toNat ≤ st.totalAssets.toNat := by
  have hdom : Curve.InDomain c st :=
    Run.invariant (P := Curve.InDomain c)
      (fun _ _ _ ⟨_, _, _, ht⟩ => inDomain_of_trade ht) h inDomain_empty
  have harea := area_le_of_trades_empty h
  -- what is left of the supply is still above the offset
  have hrest : c.area c.offset.toNat ≤ c.area (c.offsetSupply st - n.toNat) :=
    area_mono (by rw [offsetSupply]; omega)
  have hout : (squareDown unit.toNat (c.offsetSupply st)
      - squareDown unit.toNat (c.offsetSupply st - n.toNat))
        * c.halfSlope.toNat / unit.toNat ≤ st.totalAssets.toNat := by
    rw [Nat.sub_mul, ← area, ← area]
    refine Nat.div_le_of_le_mul ?_
    rw [Nat.mul_comm unit.toNat]
    omega
  obtain ⟨out, ho⟩ := exists_toNat_eq (hout.trans (toNat_le_max _))
  exact ⟨out, previewRedeem_eq_ok.mpr ⟨hdom, hn, ho⟩, ho.trans_le hout⟩

/-- The curve whose price is twice its supply. -/
def doubling : OffsetProgressiveCurve where
  slope := 2000000000000000000#256
  halfSlope := 1000000000000000000#256
  offset := 0#256
  maxShares := 340282366920938463463374607431768211455#256
  maxAssets := 115792089237316195423570985008687907852589419931798687112530#256
  halfSlope_pos := by decide
  square_le := by decide

example : new 2000000000000000000#256 0#256 = .ok doubling := by decide +kernel

/-- Four deposited in the empty vault of the doubling curve buy two shares,
and one of them can be redeemed. -/
theorem redeem_payable_doubling :
    ∃ out, Curve.previewRedeem doubling 1000000000000000000#256
        ⟨4000000000000000000#256, 2000000000000000000#256⟩ = .ok out ∧
      out.toNat ≤ (4000000000000000000#256).toNat :=
  redeem_payable doubling
    (.single ⟨.deposit, 4000000000000000000#256, 2000000000000000000#256,
      by decide +kernel, by decide +kernel⟩) (by decide)

/-- **No cycle of trades takes anything out**: a run of trades that ends with
the supply it started with ends with at least the assets it started with. -/
theorem assets_le_of_cycle (c : OffsetProgressiveCurve) {st st' : CurveState}
    (h : Trades c st st') (hcycle : st'.totalShares = st.totalShares) :
    st.totalAssets.toNat ≤ st'.totalAssets.toNat := by
  have hle := surplus_le_of_trades h
  unfold surplus offsetSupply at hle
  rw [hcycle] at hle
  refine Nat.le_of_mul_le_mul_right ?_ unit_pos
  zify
  linarith

/-- A deposit into the doubling curve, redeemed whole. -/
theorem assets_le_of_cycle_doubling :
    ({} : CurveState).totalAssets.toNat ≤ ({} : CurveState).totalAssets.toNat :=
  assets_le_of_cycle doubling
    (ReflTransGen.tail
      (.single ⟨.deposit, 4000000000000000000#256, 2000000000000000000#256,
        (⟨by decide +kernel, by decide +kernel⟩ : Trade doubling _ _ _ {}
          ⟨4000000000000000000#256, 2000000000000000000#256⟩)⟩)
      ⟨.redeem, 2000000000000000000#256, 4000000000000000000#256,
        by decide +kernel, by decide +kernel⟩) rfl

end OffsetProgressiveCurve
