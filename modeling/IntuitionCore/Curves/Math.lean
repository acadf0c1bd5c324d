import IntuitionCore.Curves.Types
import IntuitionCore.Library.Result
import IntuitionCore.Library.FixedPoint

/-!
# Checked arithmetic

Products are taken in unbounded integers and only the result has to fit in
256 bits, so a helper fails on a zero denominator or on a result that does
not fit, and on nothing else. Each helper has one lemma beside it saying when
it returns and what: the curves are inverted with these, and the definitions
are not opened again.
-/

namespace Math

open Result FixedPoint

/-- The fixed-point unit, `10 ^ 18`. -/
def unit : U256 := 1000000000000000000#256

theorem unit_pos : 0 < unit.toNat := by decide

/-- The largest value that fits. -/
def maxU256 : ℕ := 2 ^ 256 - 1

/-- The largest amount. -/
def U256.max : U256 := BitVec.allOnes 256

theorem toNat_max : U256.max.toNat = maxU256 := by decide

theorem toNat_le_max (x : U256) : x.toNat ≤ maxU256 :=
  Nat.le_sub_one_of_lt x.isLt

/-- Every integer that fits is the value of an amount. -/
theorem exists_toNat_eq {n : ℕ} (h : n ≤ maxU256) : ∃ x : U256, x.toNat = n :=
  ⟨BitVec.ofNat 256 n,
    by rw [BitVec.toNat_ofNat, Nat.mod_eq_of_lt (Nat.lt_of_le_pred (by decide) h)]⟩

/-- The unbounded integer an amount stands for. -/
def toBig (value : U256) : ℕ := value.toNat

/-- The amount an unbounded integer is, if it fits. -/
def fromBig (value : ℕ) : Except CurveError U256 :=
  if maxU256 < value then .error .mathOverflow else .ok (BitVec.ofNat 256 value)

theorem fromBig_eq_ok {v : ℕ} {q : U256} : fromBig v = .ok q ↔ q.toNat = v := by
  have hmax : maxU256 + 1 = 2 ^ 256 := rfl
  rw [fromBig, ite_error_eq_ok]
  constructor
  · rintro ⟨hv, rfl⟩
    rw [BitVec.toNat_ofNat, Nat.mod_eq_of_lt (by omega)]
  · rintro rfl
    have := q.isLt
    exact ⟨by omega, by simp⟩

/-- The sum of two amounts, if it fits. -/
def checkedAdd (a b : U256) : Option U256 :=
  if maxU256 < a.toNat + b.toNat then none else some (a + b)

/-- The difference of two amounts, if it is not negative. -/
def checkedSub (a b : U256) : Option U256 :=
  if a < b then none else some (a - b)

theorem checkedAdd_eq_some {a b c : U256} :
    checkedAdd a b = some c ↔ c.toNat = a.toNat + b.toNat := by
  have hmax : maxU256 + 1 = 2 ^ 256 := rfl
  have hc := c.isLt
  rw [checkedAdd]
  split
  · exact ⟨nofun, fun h => by omega⟩
  · rw [Option.some.injEq, ← BitVec.toNat_inj, BitVec.toNat_add,
      Nat.mod_eq_of_lt (by omega)]
    exact eq_comm

theorem checkedSub_eq_some {a b c : U256} :
    checkedSub a b = some c ↔ c.toNat + b.toNat = a.toNat := by
  rw [checkedSub]
  split
  · rename_i hlt
    rw [BitVec.lt_def] at hlt
    exact ⟨nofun, fun h => by omega⟩
  · rename_i hle
    rw [BitVec.lt_def, not_lt] at hle
    rw [Option.some.injEq, ← BitVec.toNat_inj, BitVec.toNat_sub_of_le hle]
    omega

/-- The sum of two amounts. -/
def add (a b : U256) : Except CurveError U256 := okOr (checkedAdd a b) .mathOverflow

/-- The difference of two amounts. -/
def sub (a b : U256) : Except CurveError U256 := okOr (checkedSub a b) .mathUnderflow

theorem add_eq_ok {a b c : U256} : add a b = .ok c ↔ c.toNat = a.toNat + b.toNat := by
  rw [add, okOr_eq_ok, checkedAdd_eq_some]

theorem sub_eq_ok {a b c : U256} : sub a b = .ok c ↔ c.toNat + b.toNat = a.toNat := by
  rw [sub, okOr_eq_ok, checkedSub_eq_some]

/-! ## Products and quotients -/

/-- `x * y / denominator`, rounded down. -/
def mulDiv (x y denominator : U256) : Except CurveError U256 :=
  if denominator = 0#256 then .error .divisionByZero
  else fromBig (toBig x * toBig y / toBig denominator)

/-- `x * y / denominator`, rounded up. -/
def mulDivUp (x y denominator : U256) : Except CurveError U256 :=
  if denominator = 0#256 then .error .divisionByZero
  else
    let product := toBig x * toBig y
    let q := product / toBig denominator
    let r := product % toBig denominator
    fromBig (if r = 0 then q else q + 1)

theorem toNat_pos_iff {d : U256} : 0 < d.toNat ↔ d ≠ 0#256 := by
  rw [Nat.pos_iff_ne_zero, ne_eq, ne_eq, ← BitVec.toNat_inj]
  rfl

theorem mulDiv_eq_ok {x y d q : U256} :
    mulDiv x y d = .ok q ↔ 0 < d.toNat ∧ q.toNat = x.toNat * y.toNat / d.toNat := by
  by_cases hd : d = 0#256
  · simp [mulDiv, hd]
  · rw [mulDiv, if_neg hd, fromBig_eq_ok]
    exact (and_iff_right (toNat_pos_iff.mpr hd)).symm

theorem mulDivUp_eq_ok {x y d q : U256} :
    mulDivUp x y d = .ok q ↔ 0 < d.toNat ∧ q.toNat = (x.toNat * y.toNat) ⌈/⌉ d.toNat := by
  by_cases hd : d = 0#256
  · simp [mulDivUp, hd]
  · have hpos := toNat_pos_iff.mpr hd
    rw [mulDivUp, if_neg hd, ceilDiv_eq_ite hpos]
    exact fromBig_eq_ok.trans (and_iff_right hpos).symm

/-- The fixed-point square root, rounded down. -/
def sqrtUd60x18 (raw : U256) : Except CurveError U256 :=
  fromBig (Nat.sqrt (toBig raw * toBig unit))

/-- The fixed-point square, rounded down. -/
def square (x : U256) : Except CurveError U256 := mulDiv x x unit

/-- The fixed-point square, rounded up. -/
def squareUp (x : U256) : Except CurveError U256 := mulDivUp x x unit

/-- The fixed-point product, rounded up. -/
def mulUp (x y : U256) : Except CurveError U256 := mulDivUp x y unit

/-- The fixed-point quotient, rounded up. -/
def divUp (x y : U256) : Except CurveError U256 := mulDivUp x unit y

/-- A fee on an amount, rounded up. -/
def feeOnRaw (amount fee denominator : U256) : Except CurveError U256 :=
  mulDivUp amount fee denominator

/-- The market cap of a supply at a price. -/
def marketCap (totalShares sharePrice : U256) : Except CurveError U256 :=
  mulDiv totalShares sharePrice unit

theorem sqrtUd60x18_eq_ok {raw q : U256} :
    sqrtUd60x18 raw = .ok q ↔ q.toNat = sqrtDown unit.toNat raw.toNat :=
  fromBig_eq_ok

theorem square_eq_ok {x q : U256} :
    square x = .ok q ↔ q.toNat = squareDown unit.toNat x.toNat :=
  mulDiv_eq_ok.trans (and_iff_right unit_pos)

theorem squareUp_eq_ok {x q : U256} :
    squareUp x = .ok q ↔ q.toNat = FixedPoint.squareUp unit.toNat x.toNat :=
  mulDivUp_eq_ok.trans (and_iff_right unit_pos)

theorem mulUp_eq_ok {x y q : U256} :
    mulUp x y = .ok q ↔ q.toNat = (x.toNat * y.toNat) ⌈/⌉ unit.toNat :=
  mulDivUp_eq_ok.trans (and_iff_right unit_pos)

/-! ## Checks

A check passes or fails with the error it is given; the amounts it compares
and the error are what tells two checks apart. -/

/-- The totals are in the domain of the curve. -/
def checkCurveDomains (totalAssets totalShares maxAssets maxShares : U256) :
    Except CurveError Unit :=
  if maxAssets < totalAssets ∨ maxShares < totalShares then .error .domainExceeded
  else .ok ()

/-- An amount taken out is not more than there is. -/
def checkAtMost (amount total : U256) (e : CurveError) : Except CurveError Unit :=
  if total < amount then .error e else .ok ()

/-- An amount put in does not lead out of the domain. -/
def checkRemaining (amount total max : U256) (e : CurveError) : Except CurveError Unit := do
  let remaining ← okOr (checkedSub max total) .domainExceeded
  if remaining < amount then .error e else .ok ()

def checkWithdraw (assets totalAssets : U256) : Except CurveError Unit :=
  checkAtMost assets totalAssets .assetsExceedTotalAssets

def checkRedeem (shares totalShares : U256) : Except CurveError Unit :=
  checkAtMost shares totalShares .sharesExceedTotalShares

def checkDepositBounds (assets totalAssets maxAssets : U256) : Except CurveError Unit :=
  checkRemaining assets totalAssets maxAssets .assetsOverflowMax

def checkDepositOut (sharesOut totalShares maxShares : U256) : Except CurveError Unit :=
  checkRemaining sharesOut totalShares maxShares .sharesOverflowMax

def checkMintBounds (shares totalShares maxShares : U256) : Except CurveError Unit :=
  checkRemaining shares totalShares maxShares .sharesOverflowMax

def checkMintOut (assetsOut totalAssets maxAssets : U256) : Except CurveError Unit :=
  checkRemaining assetsOut totalAssets maxAssets .assetsOverflowMax

theorem checkCurveDomains_eq_ok {A S mA mS : U256} {u : Unit} :
    checkCurveDomains A S mA mS = .ok u ↔ A.toNat ≤ mA.toNat ∧ S.toNat ≤ mS.toNat := by
  simp [checkCurveDomains, BitVec.lt_def]

theorem checkAtMost_eq_ok {x t : U256} {e : CurveError} {u : Unit} :
    checkAtMost x t e = .ok u ↔ x.toNat ≤ t.toNat := by
  simp [checkAtMost, BitVec.lt_def]

theorem checkRemaining_eq_ok {x t m : U256} {e : CurveError} {u : Unit} :
    checkRemaining x t m e = .ok u ↔ t.toNat + x.toNat ≤ m.toNat := by
  simp only [checkRemaining, bind_eq_ok, okOr_eq_ok, checkedSub_eq_some, ite_error_eq_ok,
    BitVec.lt_def, not_lt]
  constructor
  · rintro ⟨r, hr, hx, -⟩
    omega
  · intro h
    obtain ⟨r, hr⟩ := exists_toNat_eq ((Nat.sub_le _ t.toNat).trans (toNat_le_max m))
    exact ⟨r, by omega, by omega, trivial⟩

end Math
