import IntuitionCore.Curves.Fees
import IntuitionCore.Curves.Solvency
import IntuitionCore.Curves.Price

/-!
# A round trip creates nothing

Depositing and redeeming at once what the deposit bought gives back at most
the deposit: that is a property of the curve, and it holds of both. With fees
it becomes an account of where everything went. What the depositor paid is
what the vault received and the fees of the deposit; what the vault gave back
is what the redeemer was paid and the fees of the redemption; and the second
is at most what the vault received.
-/

open Math FixedPoint

/-- Redeeming at once what a deposit bought pays at most the deposit. -/
def Curve.RoundTripLoses {C : Type} [Curve C] (c : C) (st : CurveState) : Prop :=
  ∀ (a m out : U256) (st' : CurveState),
    Trade c .deposit a m st st' → previewRedeem c m st' = .ok out → out.toNat ≤ a.toNat

/-- What the redemption gives back of the area is what the deposit added. -/
theorem OffsetProgressiveCurve.roundTripLoses (c : OffsetProgressiveCurve)
    (st : CurveState) : Curve.RoundTripLoses c st := by
  intro a m out st' hd hr
  have hdep := area_deposit_le hd.quoted
  have hred := area_redeem_le hr
  rw [offsetSupply_add hd.settled.2, Nat.add_sub_cancel] at hred
  refine Nat.le_of_mul_le_mul_right ?_ unit_pos
  omega

/-- The ratio the redemption is paid at is that of the totals with the
deposit in them, and the shares it is paid for are at most the part the
deposit is of those. A supply worth nothing is the exception, and so is one
that does not exist while there are assets: the first depositor would get
them. -/
theorem LinearCurve.roundTripLoses (c : LinearCurve) {st : CurveState}
    (hst : 0 < st.totalShares.toNat ∨
      st.totalShares.toNat = 0 ∧ st.totalAssets.toNat = 0) :
    Curve.RoundTripLoses c st := by
  intro a m out st' hd hr
  obtain ⟨hA, hS⟩ := hd.settled
  have hred := fun h => redeem_mul_le hr h
  rw [hA, hS] at hred
  obtain hpos | ⟨hS0, hA0⟩ := hst
  · have hdep := deposit_mul_le hd.quoted hpos
    have hred := hred (by omega)
    refine Nat.le_of_mul_le_mul_right (hred.trans ?_)
      (show 0 < st.totalShares.toNat + m.toNat by omega)
    linarith
  · obtain ⟨-, rfl⟩ | ⟨h, -⟩ := previewDeposit_spec hd.quoted
    · by_cases hm : m.toNat = 0
      · -- nothing was deposited, and nothing is redeemed
        obtain ⟨-, ⟨-, rfl⟩ | ⟨hpos, -⟩⟩ := previewRedeem_spec hr
        · exact le_rfl
        · omega
      · rw [hS0, hA0, Nat.zero_add] at hred
        exact Nat.le_of_mul_le_mul_right (hred (by omega)) (Nat.pos_of_ne_zero hm)
    · omega

/-! ## With fees -/

/-- A call of one of the three deposit quotes, with its fees and flags. -/
inductive DepositCall where
  | withFees (fees : FeeSchedule) (chargeEntryFee : Bool)
  | atom (fees : FeeSchedule) (atomFees : AtomFees) (chargeEntryFee : Bool)
  | triple (fees : FeeSchedule) (tripleFees : TripleFees)
      (chargeEntryFee chargeAtomDepositFraction : Bool)
  deriving DecidableEq, Repr

section

variable {C : Type} [Curve C]

/-- What the call returns. -/
def DepositCall.quote (c : C) (a : U256) (st : CurveState) :
    DepositCall → Except CurveError DepositQuote
  | withFees fees chargeEntryFee => previewDepositWithFees c a st fees chargeEntryFee
  | atom fees atomFees chargeEntryFee =>
    previewAtomDeposit c a st fees atomFees chargeEntryFee
  | triple fees tripleFees chargeEntryFee chargeAtomDepositFraction =>
    previewTripleDeposit c a st fees tripleFees chargeEntryFee chargeAtomDepositFraction

/-- Every one of the three is exact. -/
theorem DepositCall.exact_of_quote {c : C} {call : DepositCall} {a : U256} {st : CurveState}
    {d : DepositQuote} (h : call.quote c a st = .ok d) : d.Exact c a st := by
  cases call with
  | withFees fees chargeEntryFee => exact previewDepositWithFees_exact h
  | atom fees atomFees chargeEntryFee => exact previewAtomDeposit_exact h
  | triple fees tripleFees chargeEntryFee chargeFraction =>
    exact previewTripleDeposit_exact h

/-- The account of a round trip: both breakdowns have a total, each quote
took the total it reports, and what was paid out and taken in fees on the two
ways is at most what was paid in. -/
def FeesConserved (d : DepositQuote) (r : RedeemQuote) : Prop :=
  ∃ depositFees redeemFees : U256,
    d.fees.total = .ok depositFees ∧ r.fees.total = .ok redeemFees ∧
      d.assetsBeforeFees.toNat = d.assetsAfterFees.toNat + depositFees.toNat ∧
      r.assetsBeforeFees.toNat = r.assetsAfterFees.toNat + redeemFees.toNat ∧
      r.assetsAfterFees.toNat + redeemFees.toNat + depositFees.toNat
        ≤ d.assetsBeforeFees.toNat

/-- Every deposit quoted in a state, redeemed at once, conserves its fees. -/
def Curve.ConservesFees (c : C) (st : CurveState) : Prop :=
  ∀ (call : DepositCall) (assets : U256) (d : DepositQuote) (st' : CurveState)
    (fees : FeeSchedule) (chargeExitFee : Bool) (r : RedeemQuote),
    call.quote c assets st = .ok d →
    Op.deposit.Settles d.assetsAfterFees d.shares st st' →
    previewRedeemWithFees c d.shares st' fees chargeExitFee = .ok r →
    FeesConserved d r

/-- Where a round trip loses without fees, it conserves them. -/
theorem Curve.conservesFees {c : C} {st : CurveState} (h : Curve.RoundTripLoses c st) :
    Curve.ConservesFees c st := by
  intro call assets d st' fees chargeExitFee r hd hst hr
  obtain ⟨-, hdep, hquoted⟩ := DepositCall.exact_of_quote hd
  obtain ⟨hpaid, hred⟩ := previewRedeemWithFees_exact hr
  have hle := h _ _ _ st' ⟨hquoted, hst⟩ hpaid
  obtain ⟨td, htd, hd⟩ := FeeBreakdown.exists_total
    (((Nat.le_add_left _ _).trans_eq hdep.symm).trans (toNat_le_max _))
  obtain ⟨tr, htr, hr⟩ := FeeBreakdown.exists_total
    (((Nat.le_add_left _ _).trans_eq hred.symm).trans (toNat_le_max _))
  exact ⟨td, tr, htd, htr, by omega, by omega, by omega⟩

end

/-- **A round trip conserves what goes through it**, on either curve and for
every deposit, schedule and flag: both quotes take exactly the fees they
report, and no more is paid out and taken than was paid in. -/
theorem fees_conserved :
    (∀ (c : OffsetProgressiveCurve) (st : CurveState), Curve.ConservesFees c st) ∧
      ∀ (c : LinearCurve) (st : CurveState),
        0 < st.totalShares.toNat ∨
          st.totalShares.toNat = 0 ∧ st.totalAssets.toNat = 0 →
        Curve.ConservesFees c st :=
  ⟨fun c st => Curve.conservesFees (c.roundTripLoses st),
    fun c _ hst => Curve.conservesFees (c.roundTripLoses hst)⟩

/-- A thousand deposited with an entry fee into a vault of three for two, and
redeemed with an exit fee. -/
theorem fees_conserved_linear :
    FeesConserved
      ⟨646#256, 1000#256, 970#256, { protocolFee := 10#256, entryFee := 20#256 }⟩
      ⟨646#256, 969#256, 920#256, { protocolFee := 10#256, exitFee := 39#256 }⟩ :=
  fees_conserved.2 ⟨⟩ ⟨3#256, 2#256⟩ (by decide)
    (.withFees ⟨100#256, 1#256, 2#256, 4#256⟩ true) 1000#256 _ ⟨973#256, 648#256⟩
    ⟨100#256, 1#256, 2#256, 4#256⟩ true _
    (by decide +kernel) (by decide +kernel) (by decide +kernel)
