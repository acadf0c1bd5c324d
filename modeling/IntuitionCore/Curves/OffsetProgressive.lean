import IntuitionCore.Curves.Math

/-!
# The progressive curve

The price of a share grows linearly with the supply, from a price at an empty
supply that the offset sets. The assets behind a supply are the area under
the price, a difference of squares; so a quote squares the offset supply,
moves by the amount asked, and takes a root back.

A curve is what its constructor accepted. Two facts about it are needed to
know that quotes do not fail for want of room, and the curve carries both: its
half slope is not zero, and the largest offset supply has a square that fits.
-/

open Math Result

/-- The largest supply of a curve, before its offset is taken off: the
largest amount whose fixed-point square fits. -/
def maxSharesBeforeOffset : Except CurveError U256 := do
  let v ← fromBig (toBig U256.max / toBig unit)
  sqrtUd60x18 v

/-- The progressive curve of a slope and an offset. -/
structure OffsetProgressiveCurve where
  /-- The growth of the price with the supply. -/
  slope : U256
  /-- Half the slope, which is what areas are multiplied by. -/
  halfSlope : U256
  /-- What is added to the supply before it is priced. -/
  offset : U256
  /-- The largest supply. -/
  maxShares : U256
  /-- The largest amount of assets. -/
  maxAssets : U256
  /-- The price grows. -/
  halfSlope_pos : 0 < halfSlope.toNat
  /-- The square of every offset supply fits. -/
  square_le : (maxShares.toNat + offset.toNat) * (maxShares.toNat + offset.toNat) ≤ maxU256
  deriving DecidableEq

namespace OffsetProgressiveCurve

open FixedPoint

/-! ## The constructor -/

/-- The largest supply of a curve with a given offset. -/
def newMaxShares (offset : U256) : Except CurveError U256 := do
  let before ← maxSharesBeforeOffset
  sub before offset

/-- The assets behind the largest supply. -/
def newMaxAssets (halfSlope offset maxShares : U256) : Except CurveError U256 := do
  let maxSharesWithOffset ← add maxShares offset
  let assetsSpan ← sub (← Math.square maxSharesWithOffset) (← Math.squareUp offset)
  mulDiv assetsSpan halfSlope unit

theorem shift_pos {slope : U256} (h : ¬ (slope = 0#256 ∨ slope.getLsbD 0 = true)) :
    0 < (slope >>> 1).toNat := by
  rw [not_or, Bool.not_eq_true, BitVec.getLsbD, Nat.testBit_zero, decide_eq_false_iff_not]
    at h
  have hpos := toNat_pos_iff.mpr h.1
  rw [BitVec.toNat_ushiftRight, Nat.shiftRight_one]
  omega

theorem newMaxShares_square_le {offset maxShares : U256}
    (h : newMaxShares offset = .ok maxShares) :
    (maxShares.toNat + offset.toNat) * (maxShares.toNat + offset.toNat) ≤ maxU256 := by
  simp only [newMaxShares, maxSharesBeforeOffset, bind_eq_ok] at h
  obtain ⟨before, ⟨v, hv, hroot⟩, hsub⟩ := h
  rw [fromBig_eq_ok] at hv
  rw [sqrtUd60x18_eq_ok, sqrtDown, hv] at hroot
  rw [sub_eq_ok] at hsub
  rw [hsub, hroot]
  calc _ ≤ toBig U256.max / toBig unit * unit.toNat := Nat.sqrt_le _
    _ ≤ toBig U256.max := Nat.div_mul_le_self _ _
    _ = maxU256 := toNat_max

/-- The curve of a slope and an offset: the slope has to be even and not
zero, and the offset has to leave room for a supply. -/
def new (slope offset : U256) : Except CurveError OffsetProgressiveCurve :=
  if h : slope = 0#256 ∨ slope.getLsbD 0 = true then .error .invalidSlope
  else
    match hs : newMaxShares offset with
    | .error e => .error e
    | .ok maxShares => do
      let maxAssets ← newMaxAssets (slope >>> 1) offset maxShares
      .ok {
        slope
        halfSlope := slope >>> 1
        offset
        maxShares
        maxAssets
        halfSlope_pos := shift_pos h
        square_le := newMaxShares_square_le hs }

/-! ## The quotes -/

def convertToSharesInternal (c : OffsetProgressiveCurve) (assets : U256)
    (state : CurveState) : Except CurveError U256 := do
  checkCurveDomains state.totalAssets state.totalShares c.maxAssets c.maxShares
  checkDepositBounds assets state.totalAssets c.maxAssets
  let s ← add state.totalShares c.offset
  let inner ← add (← Math.square s) (← mulDiv assets unit c.halfSlope)
  let shares ← sub (← sqrtUd60x18 inner) s
  checkDepositOut shares state.totalShares c.maxShares
  .ok shares

def convertToAssetsInternal (c : OffsetProgressiveCurve) (shares : U256)
    (state : CurveState) : Except CurveError U256 := do
  checkCurveDomains state.totalAssets state.totalShares c.maxAssets c.maxShares
  checkRedeem shares state.totalShares
  let s ← add state.totalShares c.offset
  let sNext ← sub s shares
  let area ← sub (← Math.square s) (← Math.square sNext)
  mulDiv area c.halfSlope unit

def previewMint (c : OffsetProgressiveCurve) (shares : U256) (state : CurveState) :
    Except CurveError U256 := do
  checkCurveDomains state.totalAssets state.totalShares c.maxAssets c.maxShares
  checkMintBounds shares state.totalShares c.maxShares
  let s ← add state.totalShares c.offset
  let sNext ← add s shares
  let area ← sub (← Math.squareUp sNext) (← Math.square s)
  let assets ← mulUp area c.halfSlope
  checkMintOut assets state.totalAssets c.maxAssets
  .ok assets

def previewWithdraw (c : OffsetProgressiveCurve) (assets : U256) (state : CurveState) :
    Except CurveError U256 := do
  checkCurveDomains state.totalAssets state.totalShares c.maxAssets c.maxShares
  checkWithdraw assets state.totalAssets
  let s ← add state.totalShares c.offset
  let deduct ← divUp assets c.halfSlope
  let inner ← sub (← Math.square s) deduct
  sub s (← sqrtUd60x18 inner)

def currentPrice (c : OffsetProgressiveCurve) (state : CurveState) :
    Except CurveError U256 := do
  checkCurveDomains state.totalAssets state.totalShares c.maxAssets c.maxShares
  let s ← add state.totalShares c.offset
  mulDiv s c.slope unit

instance : Curve OffsetProgressiveCurve where
  maxShares := maxShares
  maxAssets := maxAssets
  previewDeposit := convertToSharesInternal
  previewMint := previewMint
  previewWithdraw := previewWithdraw
  previewRedeem := convertToAssetsInternal
  convertToShares := convertToSharesInternal
  convertToAssets := convertToAssetsInternal
  currentPrice := currentPrice

/-! ## What a quote returns

Quotes are read at the offset supply. Three of them are only ever inverted;
for a redemption the converse is needed too, since it has to be payable. -/

section Quotes

variable {c : OffsetProgressiveCurve} {st : CurveState} {a n q : U256}

/-- The supply a state is priced at. -/
def offsetSupply (c : OffsetProgressiveCurve) (st : CurveState) : ℕ :=
  st.totalShares.toNat + c.offset.toNat

/-- Adding to the supply adds to the offset supply. -/
theorem offsetSupply_add {st' : CurveState} {k : ℕ}
    (h : st'.totalShares.toNat = st.totalShares.toNat + k) :
    c.offsetSupply st' = c.offsetSupply st + k := by
  rw [offsetSupply, h, offsetSupply, Nat.add_right_comm]

/-- Taking from the supply takes from the offset supply. -/
theorem offsetSupply_sub {st' : CurveState} {k : ℕ}
    (h : st'.totalShares.toNat + k = st.totalShares.toNat) :
    c.offsetSupply st' = c.offsetSupply st - k := by
  rw [offsetSupply, offsetSupply, ← h, Nat.add_right_comm, Nat.add_sub_cancel]

theorem checkDomains_eq_ok {u : Unit} :
    checkCurveDomains st.totalAssets st.totalShares c.maxAssets c.maxShares = .ok u ↔
      Curve.InDomain c st :=
  checkCurveDomains_eq_ok

/-- **A deposit** moves the offset supply to the root of its square plus the
deposit over the half slope, everything rounded down. -/
theorem previewDeposit_spec (h : Curve.previewDeposit c a st = .ok q) :
    Curve.InDomain c st ∧ st.totalAssets.toNat + a.toNat ≤ c.maxAssets.toNat ∧
      st.totalShares.toNat + q.toNat ≤ c.maxShares.toNat ∧
      c.offsetSupply st + q.toNat = sqrtDown unit.toNat
        (squareDown unit.toNat (c.offsetSupply st)
          + a.toNat * unit.toNat / c.halfSlope.toNat) := by
  change convertToSharesInternal c a st = .ok q at h
  simp only [convertToSharesInternal, bind_eq_ok, Except.ok.injEq] at h
  obtain ⟨_, hdom, _, hin, s, hs, sq, hsq, d, hd, inner, hinner, r, hr, q', hq, _, hout,
    rfl⟩ := h
  rw [add_eq_ok] at hs hinner
  rw [square_eq_ok, hs] at hsq
  rw [mulDiv_eq_ok] at hd
  rw [sqrtUd60x18_eq_ok, hinner, hsq, hd.2] at hr
  rw [sub_eq_ok, hs, hr, Nat.add_comm] at hq
  exact ⟨checkDomains_eq_ok.mp hdom, checkRemaining_eq_ok.mp hin,
    checkRemaining_eq_ok.mp hout, hq⟩

/-- **A mint** charges for the area between the two offset supplies, the
upper square rounded up and the lower one down. -/
theorem previewMint_spec (h : Curve.previewMint c n st = .ok q) :
    Curve.InDomain c st ∧ st.totalShares.toNat + n.toNat ≤ c.maxShares.toNat ∧
      st.totalAssets.toNat + q.toNat ≤ c.maxAssets.toNat ∧
      q.toNat = ((squareUp unit.toNat (c.offsetSupply st + n.toNat)
        - squareDown unit.toNat (c.offsetSupply st)) * c.halfSlope.toNat)
          ⌈/⌉ unit.toNat := by
  change previewMint c n st = .ok q at h
  simp only [previewMint, bind_eq_ok, Except.ok.injEq] at h
  obtain ⟨_, hdom, _, hin, s, hs, s', hs', up, hup, sq, hsq, ar, har, q', hq, _, hout,
    rfl⟩ := h
  rw [add_eq_ok] at hs hs'
  rw [squareUp_eq_ok, hs', hs] at hup
  rw [square_eq_ok, hs] at hsq
  rw [sub_eq_ok, hup, hsq] at har
  rw [mulUp_eq_ok, Nat.eq_sub_of_add_eq har] at hq
  exact ⟨checkDomains_eq_ok.mp hdom, checkRemaining_eq_ok.mp hin,
    checkRemaining_eq_ok.mp hout, hq⟩

/-- **A withdrawal** moves the offset supply to the root of its square less
the withdrawal over the half slope, the latter rounded up. -/
theorem previewWithdraw_spec (h : Curve.previewWithdraw c a st = .ok q) :
    Curve.InDomain c st ∧ a.toNat ≤ st.totalAssets.toNat ∧
      (a.toNat * unit.toNat) ⌈/⌉ c.halfSlope.toNat
        ≤ squareDown unit.toNat (c.offsetSupply st) ∧
      q.toNat + sqrtDown unit.toNat
          (squareDown unit.toNat (c.offsetSupply st)
            - (a.toNat * unit.toNat) ⌈/⌉ c.halfSlope.toNat)
        = c.offsetSupply st := by
  change previewWithdraw c a st = .ok q at h
  simp only [previewWithdraw, bind_eq_ok] at h
  obtain ⟨_, hdom, _, hle, s, hs, d, hd, sq, hsq, inner, hinner, r, hr, hq⟩ := h
  rw [add_eq_ok] at hs
  rw [divUp, mulDivUp_eq_ok] at hd
  rw [square_eq_ok, hs] at hsq
  rw [sub_eq_ok, hsq, hd.2] at hinner
  rw [sqrtUd60x18_eq_ok, Nat.eq_sub_of_add_eq hinner] at hr
  rw [sub_eq_ok, hr, hs] at hq
  exact ⟨checkDomains_eq_ok.mp hdom, checkAtMost_eq_ok.mp hle,
    (Nat.le_add_left _ _).trans_eq hinner, hq⟩

/-- In the domain of a curve the square of the offset supply fits. -/
theorem square_fits {x : ℕ} (hx : x ≤ c.maxShares.toNat + c.offset.toNat) :
    squareDown unit.toNat x ≤ maxU256 :=
  (Nat.div_le_self _ _).trans ((Nat.mul_le_mul hx hx).trans c.square_le)

/-- **A redemption** pays the area between the two offset supplies, rounded
down, and returns whenever the redeemed shares exist and the payout fits. -/
theorem previewRedeem_eq_ok :
    Curve.previewRedeem c n st = .ok q ↔
      Curve.InDomain c st ∧ n.toNat ≤ st.totalShares.toNat ∧
        q.toNat = (squareDown unit.toNat (c.offsetSupply st)
          - squareDown unit.toNat (c.offsetSupply st - n.toNat))
            * c.halfSlope.toNat / unit.toNat := by
  change convertToAssetsInternal c n st = .ok q ↔ _
  simp only [convertToAssetsInternal, bind_eq_ok]
  constructor
  · rintro ⟨_, hdom, _, hle, s, hs, s', hs', sq, hsq, sq', hsq', ar, har, hq⟩
    rw [add_eq_ok] at hs
    rw [sub_eq_ok, hs] at hs'
    rw [square_eq_ok] at hsq hsq'
    rw [sub_eq_ok, hsq, hsq', hs, Nat.eq_sub_of_add_eq hs'] at har
    rw [mulDiv_eq_ok, Nat.eq_sub_of_add_eq har] at hq
    exact ⟨checkDomains_eq_ok.mp hdom, checkAtMost_eq_ok.mp hle, hq.2⟩
  · rintro ⟨hdom, hle, hq⟩
    have hS : c.offsetSupply st ≤ c.maxShares.toNat + c.offset.toNat :=
      Nat.add_le_add_right hdom.2 _
    have hself : ∀ x : ℕ, x ≤ c.maxShares.toNat + c.offset.toNat → x ≤ maxU256 :=
      fun x hx => (Nat.le_mul_self x).trans ((Nat.mul_le_mul hx hx).trans c.square_le)
    obtain ⟨s, hs⟩ := exists_toNat_eq (hself _ hS)
    obtain ⟨s', hs'⟩ := exists_toNat_eq (hself _ ((Nat.sub_le _ n.toNat).trans hS))
    obtain ⟨sq, hsq⟩ := exists_toNat_eq (square_fits hS)
    obtain ⟨sq', hsq'⟩ := exists_toNat_eq (square_fits ((Nat.sub_le _ n.toNat).trans hS))
    obtain ⟨ar, har⟩ := exists_toNat_eq ((Nat.sub_le _ sq'.toNat).trans (toNat_le_max sq))
    have hn : n.toNat ≤ c.offsetSupply st := hle.trans (Nat.le_add_right _ _)
    have hmono : sq'.toNat ≤ sq.toNat := by
      rw [hsq, hsq']
      exact squareDown_mono (Nat.sub_le _ _)
    refine ⟨(), checkDomains_eq_ok.mpr hdom, (), checkAtMost_eq_ok.mpr hle,
      s, add_eq_ok.mpr hs, s', sub_eq_ok.mpr (by omega), sq, ?_, sq', ?_,
      ar, sub_eq_ok.mpr (by omega), mulDiv_eq_ok.mpr ⟨unit_pos, ?_⟩⟩
    · rw [square_eq_ok, hsq, hs]
    · rw [square_eq_ok, hsq', hs']
    · rw [hq, har, hsq, hsq']

end Quotes

end OffsetProgressiveCurve
