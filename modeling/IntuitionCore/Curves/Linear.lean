import IntuitionCore.Curves.Math

/-!
# The linear curve

A share of the linear curve is worth its part of the assets: amounts are
converted by the ratio of the two totals, rounded against whoever trades. An
empty supply has no ratio, and converts one to one.

Every amount is in the domain of this curve, so the only things its quotes
check are that a deposit does not overflow and that a withdrawal or a
redemption does not exceed what there is.
-/

/-- The linear curve has no parameter. -/
structure LinearCurve where
  deriving DecidableEq, Repr

namespace LinearCurve

open Math Result FixedPoint

def maxShares (_ : LinearCurve) : U256 := U256.max

def maxAssets (_ : LinearCurve) : U256 := U256.max

def convertToSharesUnchecked (assets : U256) (state : CurveState) :
    Except CurveError U256 :=
  if state.totalShares = 0#256 then .ok assets
  else mulDiv assets state.totalShares state.totalAssets

def convertToAssetsUnchecked (shares : U256) (state : CurveState) :
    Except CurveError U256 :=
  if state.totalShares = 0#256 then .ok shares
  else mulDiv shares state.totalAssets state.totalShares

def previewDeposit (c : LinearCurve) (assets : U256) (state : CurveState) :
    Except CurveError U256 := do
  checkCurveDomains state.totalAssets state.totalShares c.maxAssets c.maxShares
  checkDepositBounds assets state.totalAssets c.maxAssets
  let shares ← convertToSharesUnchecked assets state
  checkDepositOut shares state.totalShares c.maxShares
  .ok shares

def previewMint (c : LinearCurve) (shares : U256) (state : CurveState) :
    Except CurveError U256 := do
  checkCurveDomains state.totalAssets state.totalShares c.maxAssets c.maxShares
  checkMintBounds shares state.totalShares c.maxShares
  let assets ←
    (if state.totalShares = 0#256 then .ok shares
    else mulDivUp shares state.totalAssets state.totalShares : Except CurveError U256)
  checkMintOut assets state.totalAssets c.maxAssets
  .ok assets

def previewWithdraw (c : LinearCurve) (assets : U256) (state : CurveState) :
    Except CurveError U256 := do
  checkCurveDomains state.totalAssets state.totalShares c.maxAssets c.maxShares
  checkWithdraw assets state.totalAssets
  if state.totalShares = 0#256 then .ok assets
  else mulDivUp assets state.totalShares state.totalAssets

def previewRedeem (c : LinearCurve) (shares : U256) (state : CurveState) :
    Except CurveError U256 := do
  checkCurveDomains state.totalAssets state.totalShares c.maxAssets c.maxShares
  checkRedeem shares state.totalShares
  convertToAssetsUnchecked shares state

def convertToAssets (c : LinearCurve) (shares : U256) (state : CurveState) :
    Except CurveError U256 := do
  checkCurveDomains state.totalAssets state.totalShares c.maxAssets c.maxShares
  checkRedeem shares state.totalShares
  convertToAssetsUnchecked shares state

def currentPrice (c : LinearCurve) (state : CurveState) : Except CurveError U256 := do
  checkCurveDomains state.totalAssets state.totalShares c.maxAssets c.maxShares
  convertToAssetsUnchecked 1000000000000000000#256 state

instance : Curve LinearCurve where
  maxShares := maxShares
  maxAssets := maxAssets
  previewDeposit := previewDeposit
  previewMint := previewMint
  previewWithdraw := previewWithdraw
  previewRedeem := previewRedeem
  convertToShares := previewDeposit
  convertToAssets := convertToAssets
  currentPrice := currentPrice

/-! ## What a quote returns

One lemma per quote. An empty supply is a case of its own in each of them. -/

section Quotes

variable {c : LinearCurve} {st : CurveState} {a n q : U256}

theorem convertToSharesUnchecked_eq_ok (h : convertToSharesUnchecked a st = .ok q) :
    st.totalShares.toNat = 0 ∧ q = a ∨
      0 < st.totalShares.toNat ∧ 0 < st.totalAssets.toNat ∧
        q.toNat = a.toNat * st.totalShares.toNat / st.totalAssets.toNat := by
  rw [convertToSharesUnchecked] at h
  split at h
  · rename_i hS
    exact .inl ⟨congrArg BitVec.toNat hS, (Except.ok.inj h).symm⟩
  · rename_i hS
    exact .inr ⟨toNat_pos_iff.mpr hS, mulDiv_eq_ok.mp h⟩

theorem convertToAssetsUnchecked_eq_ok (h : convertToAssetsUnchecked n st = .ok q) :
    st.totalShares.toNat = 0 ∧ q = n ∨ 0 < st.totalShares.toNat ∧
      q.toNat = n.toNat * st.totalAssets.toNat / st.totalShares.toNat := by
  rw [convertToAssetsUnchecked] at h
  split at h
  · rename_i hS
    exact .inl ⟨congrArg BitVec.toNat hS, (Except.ok.inj h).symm⟩
  · rename_i hS
    exact .inr (mulDiv_eq_ok.mp h)

/-- A deposit mints the depositor's part of the supply, rounded down. -/
theorem previewDeposit_spec (h : Curve.previewDeposit c a st = .ok q) :
    st.totalShares.toNat = 0 ∧ q = a ∨
      0 < st.totalShares.toNat ∧ 0 < st.totalAssets.toNat ∧
        q.toNat = a.toNat * st.totalShares.toNat / st.totalAssets.toNat := by
  change previewDeposit c a st = .ok q at h
  simp only [previewDeposit, bind_eq_ok, Except.ok.injEq] at h
  obtain ⟨-, -, -, -, q', hq, -, -, rfl⟩ := h
  exact convertToSharesUnchecked_eq_ok hq

/-- A deposit that is quoted leaves totals that fit. -/
theorem previewDeposit_fits (h : Curve.previewDeposit c a st = .ok q) :
    st.totalAssets.toNat + a.toNat ≤ maxU256 ∧
      st.totalShares.toNat + q.toNat ≤ maxU256 := by
  change previewDeposit c a st = .ok q at h
  simp only [previewDeposit, bind_eq_ok, Except.ok.injEq] at h
  obtain ⟨-, -, _, hin, q', -, _, hout, rfl⟩ := h
  rw [← toNat_max]
  exact ⟨checkRemaining_eq_ok.mp hin, checkRemaining_eq_ok.mp hout⟩

/-- A mint charges the minter's part of the assets, rounded up. -/
theorem previewMint_spec (h : Curve.previewMint c n st = .ok q) :
    st.totalShares.toNat = 0 ∧ q = n ∨ 0 < st.totalShares.toNat ∧
      q.toNat = (n.toNat * st.totalAssets.toNat) ⌈/⌉ st.totalShares.toNat := by
  change previewMint c n st = .ok q at h
  simp only [previewMint, bind_eq_ok, Except.ok.injEq] at h
  obtain ⟨-, -, -, -, q', hq, -, -, rfl⟩ := h
  split at hq
  · rename_i hS
    exact .inl ⟨congrArg BitVec.toNat hS, (Except.ok.inj hq).symm⟩
  · exact .inr (mulDivUp_eq_ok.mp hq)

/-- A withdrawal burns the withdrawer's part of the supply, rounded up. -/
theorem previewWithdraw_spec (h : Curve.previewWithdraw c a st = .ok q) :
    a.toNat ≤ st.totalAssets.toNat ∧
      (st.totalShares.toNat = 0 ∧ q = a ∨
        0 < st.totalShares.toNat ∧ 0 < st.totalAssets.toNat ∧
          q.toNat = (a.toNat * st.totalShares.toNat) ⌈/⌉ st.totalAssets.toNat) := by
  change previewWithdraw c a st = .ok q at h
  simp only [previewWithdraw, bind_eq_ok] at h
  obtain ⟨-, -, _, hle, hq⟩ := h
  refine ⟨checkAtMost_eq_ok.mp hle, ?_⟩
  split at hq
  · rename_i hS
    exact .inl ⟨congrArg BitVec.toNat hS, (Except.ok.inj hq).symm⟩
  · rename_i hS
    exact .inr ⟨toNat_pos_iff.mpr hS, mulDivUp_eq_ok.mp hq⟩

/-- A redemption pays the redeemer's part of the assets, rounded down. -/
theorem previewRedeem_spec (h : Curve.previewRedeem c n st = .ok q) :
    n.toNat ≤ st.totalShares.toNat ∧
      (st.totalShares.toNat = 0 ∧ q = n ∨ 0 < st.totalShares.toNat ∧
        q.toNat = n.toNat * st.totalAssets.toNat / st.totalShares.toNat) := by
  change previewRedeem c n st = .ok q at h
  simp only [previewRedeem, bind_eq_ok] at h
  obtain ⟨-, -, _, hle, hq⟩ := h
  exact ⟨checkAtMost_eq_ok.mp hle, convertToAssetsUnchecked_eq_ok hq⟩

/-- A redemption of what exists is quoted when its payout fits. -/
theorem previewRedeem_eq_ok_of_le {out : U256} (hS : 0 < st.totalShares.toNat)
    (hn : n.toNat ≤ st.totalShares.toNat)
    (hout : out.toNat = n.toNat * st.totalAssets.toNat / st.totalShares.toNat) :
    Curve.previewRedeem c n st = .ok out := by
  show previewRedeem c n st = .ok out
  have hmax : ∀ x : U256, x.toNat ≤ U256.max.toNat := fun x => by
    rw [toNat_max]
    exact toNat_le_max x
  simp only [previewRedeem, bind_eq_ok]
  refine ⟨(), checkCurveDomains_eq_ok.mpr ⟨hmax _, hmax _⟩, (),
    checkAtMost_eq_ok.mpr hn, ?_⟩
  rw [convertToAssetsUnchecked, if_neg (toNat_pos_iff.mp hS)]
  exact mulDiv_eq_ok.mpr ⟨hS, hout⟩

end Quotes

end LinearCurve
