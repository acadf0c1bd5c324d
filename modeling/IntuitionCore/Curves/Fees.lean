import IntuitionCore.Curves.Market

/-!
# Quotes with fees

What a trader is charged goes through fees first: a deposit is quoted on what
the fees leave of it, a redemption is quoted whole and the fees are taken off
what it pays. There are three kinds of deposit, which differ in the fee they
add to those every vault charges.

A quote reports the fees it took. The lemmas of this module say that it took
exactly those: whatever the schedule and the flags, the amount before fees is
the amount after fees and the sum of the breakdown.
-/

open Math Result

/-- The fees every vault charges, as parts of a denominator. -/
structure FeeSchedule where
  /-- What a part is a part of. -/
  denominator : U256
  /-- The fee of the protocol, on deposits and redemptions. -/
  protocolFee : U256
  /-- The fee on a deposit. -/
  entryFee : U256
  /-- The fee on a redemption. -/
  exitFee : U256
  deriving DecidableEq, Repr

/-- The fee of an atom vault. -/
structure AtomFees where
  /-- The part of a deposit that goes to the wallet of the atom. -/
  atomWalletDepositFee : U256
  deriving DecidableEq, Repr

/-- The fee of a triple vault. -/
structure TripleFees where
  /-- The part of a deposit that is split among the three atoms. -/
  atomDepositFraction : U256
  deriving DecidableEq, Repr

/-- The fees a quote took. -/
structure FeeBreakdown where
  protocolFee : U256 := 0
  entryFee : U256 := 0
  exitFee : U256 := 0
  atomWalletFee : U256 := 0
  atomDepositFraction : U256 := 0
  deriving DecidableEq, Repr

/-- The quote of a deposit. -/
structure DepositQuote where
  /-- The shares the deposit buys. -/
  shares : U256
  /-- What the depositor pays. -/
  assetsBeforeFees : U256
  /-- What reaches the vault. -/
  assetsAfterFees : U256
  /-- The difference, by fee. -/
  fees : FeeBreakdown
  deriving DecidableEq, Repr

/-- The quote of a redemption. -/
structure RedeemQuote where
  /-- The shares redeemed. -/
  shares : U256
  /-- What leaves the vault. -/
  assetsBeforeFees : U256
  /-- What the redeemer is paid. -/
  assetsAfterFees : U256
  /-- The difference, by fee. -/
  fees : FeeBreakdown
  deriving DecidableEq, Repr

/-- The total of a breakdown, if it fits. -/
def FeeBreakdown.total (f : FeeBreakdown) : Except CurveError U256 := do
  let a ← add f.protocolFee f.entryFee
  let b ← add a f.exitFee
  let c ← add b f.atomWalletFee
  add c f.atomDepositFraction

/-- A fee that is only taken when it is charged. -/
def feeIf (charge : Bool) (amount fee denominator : U256) : Except CurveError U256 :=
  if charge then feeOnRaw amount fee denominator else .ok 0#256

section Quotes

variable {C : Type} [Curve C]

/-- A deposit that is charged the fees of every vault only. -/
def previewDepositWithFees (curve : C) (assetsBeforeFees : U256) (state : CurveState)
    (fees : FeeSchedule) (chargeEntryFee : Bool) : Except CurveError DepositQuote := do
  let protocolFee ← feeOnRaw assetsBeforeFees fees.protocolFee fees.denominator
  let entryFee ← feeIf chargeEntryFee assetsBeforeFees fees.entryFee fees.denominator
  let totalFees ← add protocolFee entryFee
  let assetsAfterFees ← sub assetsBeforeFees totalFees
  let shares ← Curve.previewDeposit curve assetsAfterFees state
  .ok {
    shares, assetsBeforeFees, assetsAfterFees
    fees := { protocolFee, entryFee } }

/-- A redemption. -/
def previewRedeemWithFees (curve : C) (shares : U256) (state : CurveState)
    (fees : FeeSchedule) (chargeExitFee : Bool) : Except CurveError RedeemQuote := do
  let assetsBeforeFees ← Curve.previewRedeem curve shares state
  let protocolFee ← feeOnRaw assetsBeforeFees fees.protocolFee fees.denominator
  let exitFee ← feeIf chargeExitFee assetsBeforeFees fees.exitFee fees.denominator
  let totalFees ← add protocolFee exitFee
  let assetsAfterFees ← sub assetsBeforeFees totalFees
  .ok {
    shares, assetsBeforeFees, assetsAfterFees
    fees := { protocolFee, exitFee } }

/-- A deposit into the vault of an atom. -/
def previewAtomDeposit (curve : C) (assets : U256) (state : CurveState)
    (fees : FeeSchedule) (atomFees : AtomFees) (chargeEntryFee : Bool) :
    Except CurveError DepositQuote := do
  let protocolFee ← feeOnRaw assets fees.protocolFee fees.denominator
  let entryFee ← feeIf chargeEntryFee assets fees.entryFee fees.denominator
  let atomWalletFee ← feeOnRaw assets atomFees.atomWalletDepositFee fees.denominator
  let base ← add protocolFee entryFee
  let total ← add base atomWalletFee
  let assetsAfterFees ← sub assets total
  let shares ← Curve.previewDeposit curve assetsAfterFees state
  .ok {
    shares, assetsBeforeFees := assets, assetsAfterFees
    fees := { protocolFee, entryFee, atomWalletFee } }

/-- A deposit into the vault of a triple. -/
def previewTripleDeposit (curve : C) (assets : U256) (state : CurveState)
    (fees : FeeSchedule) (tripleFees : TripleFees)
    (chargeEntryFee chargeAtomDepositFraction : Bool) :
    Except CurveError DepositQuote := do
  let protocolFee ← feeOnRaw assets fees.protocolFee fees.denominator
  let entryFee ← feeIf chargeEntryFee assets fees.entryFee fees.denominator
  let atomDepositFraction ←
    feeIf chargeAtomDepositFraction assets tripleFees.atomDepositFraction fees.denominator
  let base ← add protocolFee entryFee
  let total ← add base atomDepositFraction
  let assetsAfterFees ← sub assets total
  let shares ← Curve.previewDeposit curve assetsAfterFees state
  .ok {
    shares, assetsBeforeFees := assets, assetsAfterFees
    fees := { protocolFee, entryFee, atomDepositFraction } }

end Quotes

/-! ## A quote takes the fees it reports -/

/-- The sum of a breakdown, which need not fit. -/
def FeeBreakdown.sum (f : FeeBreakdown) : ℕ :=
  f.protocolFee.toNat + f.entryFee.toNat + f.exitFee.toNat + f.atomWalletFee.toNat
    + f.atomDepositFraction.toNat

/-- The total of a breakdown whose sum fits is its sum. -/
theorem FeeBreakdown.exists_total {f : FeeBreakdown} (h : f.sum ≤ maxU256) :
    ∃ t, f.total = .ok t ∧ t.toNat = f.sum := by
  unfold FeeBreakdown.sum at h ⊢
  obtain ⟨a, ha⟩ := exists_toNat_eq
    (show f.protocolFee.toNat + f.entryFee.toNat ≤ maxU256 by omega)
  obtain ⟨b, hb⟩ := exists_toNat_eq (show a.toNat + f.exitFee.toNat ≤ maxU256 by omega)
  obtain ⟨c, hc⟩ := exists_toNat_eq (show b.toNat + f.atomWalletFee.toNat ≤ maxU256 by omega)
  obtain ⟨t, ht⟩ := exists_toNat_eq
    (show c.toNat + f.atomDepositFraction.toNat ≤ maxU256 by omega)
  refine ⟨t, ?_, by rw [ht, hc, hb, ha]⟩
  simp only [total, bind_eq_ok, add_eq_ok]
  exact ⟨a, ha, b, hb, c, hc, ht⟩

section Quotes

variable {C : Type} [Curve C] {c : C} {st : CurveState} {a n : U256} {fees : FeeSchedule}
  {d : DepositQuote} {r : RedeemQuote} {chargeEntryFee chargeFraction chargeExitFee : Bool}

/-- What every quote of a deposit satisfies: it is the quote of the curve on
what the reported fees leave of the amount. -/
structure DepositQuote.Exact (c : C) (a : U256) (st : CurveState) (d : DepositQuote) :
    Prop where
  /-- The quote is on the amount asked. -/
  before_eq : d.assetsBeforeFees = a
  /-- Before the fees is after the fees and the fees. -/
  before_toNat : d.assetsBeforeFees.toNat = d.assetsAfterFees.toNat + d.fees.sum
  /-- The curve is asked about what is left. -/
  quoted : Curve.previewDeposit c d.assetsAfterFees st = .ok d.shares

theorem previewDepositWithFees_exact
    (h : previewDepositWithFees c a st fees chargeEntryFee = .ok d) : d.Exact c a st := by
  simp only [previewDepositWithFees, bind_eq_ok, add_eq_ok, sub_eq_ok, Except.ok.injEq] at h
  obtain ⟨p, -, e, -, t, ht, after, hafter, s, hs, rfl⟩ := h
  refine ⟨rfl, ?_, hs⟩
  simp only [FeeBreakdown.sum, BitVec.ofNat_eq_ofNat, BitVec.toNat_ofNat, Nat.zero_mod]
  omega

theorem previewAtomDeposit_exact {atomFees : AtomFees}
    (h : previewAtomDeposit c a st fees atomFees chargeEntryFee = .ok d) :
    d.Exact c a st := by
  simp only [previewAtomDeposit, bind_eq_ok, add_eq_ok, sub_eq_ok, Except.ok.injEq] at h
  obtain ⟨p, -, e, -, w, -, b, hb, t, ht, after, hafter, s, hs, rfl⟩ := h
  refine ⟨rfl, ?_, hs⟩
  simp only [FeeBreakdown.sum, BitVec.ofNat_eq_ofNat, BitVec.toNat_ofNat, Nat.zero_mod]
  omega

theorem previewTripleDeposit_exact {tripleFees : TripleFees}
    (h : previewTripleDeposit c a st fees tripleFees chargeEntryFee chargeFraction = .ok d) :
    d.Exact c a st := by
  simp only [previewTripleDeposit, bind_eq_ok, add_eq_ok, sub_eq_ok, Except.ok.injEq] at h
  obtain ⟨p, -, e, -, f, -, b, hb, t, ht, after, hafter, s, hs, rfl⟩ := h
  refine ⟨rfl, ?_, hs⟩
  simp only [FeeBreakdown.sum, BitVec.ofNat_eq_ofNat, BitVec.toNat_ofNat, Nat.zero_mod]
  omega

/-- What the quote of a redemption satisfies: it is the quote of the curve,
less the reported fees. -/
theorem previewRedeemWithFees_exact
    (h : previewRedeemWithFees c n st fees chargeExitFee = .ok r) :
    Curve.previewRedeem c n st = .ok r.assetsBeforeFees ∧
      r.assetsBeforeFees.toNat = r.assetsAfterFees.toNat + r.fees.sum := by
  simp only [previewRedeemWithFees, bind_eq_ok, add_eq_ok, sub_eq_ok, Except.ok.injEq] at h
  obtain ⟨before, hbefore, p, -, e, -, t, ht, after, hafter, rfl⟩ := h
  refine ⟨hbefore, ?_⟩
  simp only [FeeBreakdown.sum, BitVec.ofNat_eq_ofNat, BitVec.toNat_ofNat, Nat.zero_mod]
  omega

end Quotes
