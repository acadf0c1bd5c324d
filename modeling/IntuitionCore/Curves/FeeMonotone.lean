import IntuitionCore.Curves.RoundTrip

/-!
# Fees grow with the amount, up to rounding

Each fee of a deposit is its own part of the amount, rounded up on its own. So
what is left after the fees does not grow with the amount step by step: one
more unit sent can push several fees up at once. It never falls by more than
one unit less than the number of fees that are charged, and never grows by more
than what was sent.
-/

open Math Result FixedPoint

/-- A rate, when it is charged. -/
def rateIf (charge : Bool) (rate : U256) : List ℕ := if charge then [rate.toNat] else []

namespace DepositCall

/-- The schedule of a call. -/
def schedule : DepositCall → FeeSchedule
  | withFees fees _ | atom fees _ _ | triple fees _ _ _ => fees

/-- The rates a call charges, in parts of the denominator of its schedule. -/
def rates : DepositCall → List ℕ
  | withFees fees chargeEntryFee =>
    fees.protocolFee.toNat :: rateIf chargeEntryFee fees.entryFee
  | atom fees atomFees chargeEntryFee =>
    fees.protocolFee.toNat ::
      (rateIf chargeEntryFee fees.entryFee ++ [atomFees.atomWalletDepositFee.toNat])
  | triple fees tripleFees chargeEntryFee chargeAtomDepositFraction =>
    fees.protocolFee.toNat ::
      (rateIf chargeEntryFee fees.entryFee
        ++ rateIf chargeAtomDepositFraction tripleFees.atomDepositFraction)

/-- The number of fees a call charges. A fee at the rate zero takes nothing,
and is not counted. -/
def charged (call : DepositCall) : ℕ := call.rates.countP (0 < ·)

end DepositCall

/-- A fee that may be charged takes the part of its rate. -/
theorem feeIf_eq_ok {charge : Bool} {a fee d q : U256} (hd : 0 < d.toNat) :
    feeIf charge a fee d = .ok q ↔ q.toNat = parts d.toNat (rateIf charge fee) a.toNat := by
  cases charge with
  | false =>
    rw [feeIf, if_neg Bool.false_ne_true, Except.ok.injEq, rateIf, if_neg Bool.false_ne_true,
      parts_nil, ← BitVec.toNat_inj]
    exact eq_comm
  | true =>
    rw [feeIf, if_pos rfl, feeOnRaw, mulDivUp_eq_ok, and_iff_right hd, rateIf, if_pos rfl,
      parts_cons, parts_nil, Nat.add_zero]

section

variable {C : Type} [Curve C] {c : C} {st : CurveState} {call : DepositCall} {a b : U256}
  {d da db : DepositQuote}

/-- **What the fees of a call leave**: the amount less its parts at the rates
the call charges. -/
theorem DepositCall.after_add_parts (h : call.quote c a st = .ok d) :
    0 < call.schedule.denominator.toNat ∧
      d.assetsAfterFees.toNat + parts call.schedule.denominator.toNat call.rates a.toNat
        = a.toNat := by
  cases call with
  | withFees fees chargeEntryFee =>
    simp only [quote, previewDepositWithFees, bind_eq_ok, add_eq_ok, sub_eq_ok,
      Except.ok.injEq] at h
    obtain ⟨p, hp, e, he, t, ht, after, hafter, -, -, rfl⟩ := h
    obtain ⟨hd, hp⟩ := mulDivUp_eq_ok.mp hp
    rw [feeIf_eq_ok hd] at he
    refine ⟨hd, ?_⟩
    show after.toNat + parts fees.denominator.toNat (_ :: _) a.toNat = a.toNat
    rw [parts_cons, ← hp, ← he]
    omega
  | atom fees atomFees chargeEntryFee =>
    simp only [quote, previewAtomDeposit, bind_eq_ok, add_eq_ok, sub_eq_ok,
      Except.ok.injEq] at h
    obtain ⟨p, hp, e, he, w, hw, s, hs, t, ht, after, hafter, -, -, rfl⟩ := h
    obtain ⟨hd, hp⟩ := mulDivUp_eq_ok.mp hp
    obtain ⟨-, hw⟩ := mulDivUp_eq_ok.mp hw
    rw [feeIf_eq_ok hd] at he
    refine ⟨hd, ?_⟩
    show after.toNat + parts fees.denominator.toNat (_ :: (_ ++ [_])) a.toNat = a.toNat
    rw [parts_cons, parts_append, parts_cons, parts_nil, ← hp, ← he, ← hw]
    omega
  | triple fees tripleFees chargeEntryFee chargeFraction =>
    simp only [quote, previewTripleDeposit, bind_eq_ok, add_eq_ok, sub_eq_ok,
      Except.ok.injEq] at h
    obtain ⟨p, hp, e, he, f, hf, s, hs, t, ht, after, hafter, -, -, rfl⟩ := h
    obtain ⟨hd, hp⟩ := mulDivUp_eq_ok.mp hp
    rw [feeIf_eq_ok hd] at he hf
    refine ⟨hd, ?_⟩
    show after.toNat + parts fees.denominator.toNat (_ :: (_ ++ _)) a.toNat = a.toNat
    rw [parts_cons, parts_append, ← hp, ← he, ← hf]
    omega

/-- **Fee quotes are monotone up to rounding.** Of two amounts quoted in one
state, at rates of at most the whole, the larger leaves at most one unit less
for each fee but one, and at most the difference more. -/
theorem fee_quotes_monotone (c : C) (st : CurveState) (call : DepositCall)
    (hrates : call.rates.sum ≤ call.schedule.denominator.toNat) {a b : U256}
    (hab : a.toNat ≤ b.toNat) {da db : DepositQuote} (ha : call.quote c a st = .ok da)
    (hb : call.quote c b st = .ok db) :
    da.assetsAfterFees.toNat ≤ db.assetsAfterFees.toNat + (call.charged - 1) ∧
      db.assetsAfterFees.toNat ≤ da.assetsAfterFees.toNat + (b.toNat - a.toNat) := by
  obtain ⟨hd, ha⟩ := DepositCall.after_add_parts ha
  obtain ⟨-, hb⟩ := DepositCall.after_add_parts hb
  have hmono := parts_mono hd call.rates hab
  have hslack := parts_slack hd hrates hab
  rw [← DepositCall.charged] at hslack
  omega

/-- Three rates of a tenth: the eleventh unit sent leaves two units less, and
that is the slack there is. -/
theorem fee_quotes_monotone_tenths :
    (7#256).toNat ≤ (5#256).toNat + (3 - 1) ∧
      (5#256).toNat ≤ (7#256).toNat + ((11#256).toNat - (10#256).toNat) :=
  @fee_quotes_monotone LinearCurve _ ⟨⟩ {}
    (.atom ⟨10#256, 1#256, 1#256, 0#256⟩ ⟨1#256⟩ true) (by decide) 10#256 11#256 (by decide)
    ⟨7#256, 10#256, 7#256, { protocolFee := 1#256, entryFee := 1#256, atomWalletFee := 1#256 }⟩
    ⟨5#256, 11#256, 5#256, { protocolFee := 2#256, entryFee := 2#256, atomWalletFee := 2#256 }⟩
    (by decide +kernel) (by decide +kernel)

end
