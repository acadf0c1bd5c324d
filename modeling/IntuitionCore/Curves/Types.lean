import Mathlib.Logic.Basic

/-!
# The data of the curves crate

Amounts are unsigned 256-bit integers, the totals of a vault are a pair of
them, and everything that can go wrong with a quote is one of nine errors.
A curve is anything that quotes the four operations on a vault: the class
`Curve` lists the quotes, and nothing about them is assumed.
-/

/-- An unsigned 256-bit integer. Its comparison is the comparison of the
numbers it stands for, and its arithmetic wraps – which is why the crate
never uses it unchecked. -/
abbrev U256 := BitVec 256

/-- What a quote may fail with. -/
inductive CurveError where
  | invalidSlope
  | assetsExceedTotalAssets
  | sharesExceedTotalShares
  | assetsOverflowMax
  | sharesOverflowMax
  | domainExceeded
  | divisionByZero
  | mathOverflow
  | mathUnderflow
  deriving DecidableEq, Repr

/-- The text an error is displayed with; projections put it in the error they
raise on a failed market cap. -/
def CurveError.message : CurveError → String
  | invalidSlope => "invalid slope: expected a non-zero even wad"
  | assetsExceedTotalAssets => "assets exceed total assets"
  | sharesExceedTotalShares => "shares exceed total shares"
  | assetsOverflowMax => "assets overflow max assets"
  | sharesOverflowMax => "shares overflow max shares"
  | domainExceeded => "curve domain exceeded"
  | divisionByZero => "division by zero"
  | mathOverflow => "math overflow"
  | mathUnderflow => "math underflow"

/-- The totals of a vault, which are all a quote depends on besides the
amount and the curve. -/
structure CurveState where
  /-- The assets the vault holds. -/
  totalAssets : U256 := 0
  /-- The shares the vault has issued. -/
  totalShares : U256 := 0
  deriving DecidableEq, Repr

/-- A pricing curve: its domain, and the quotes it gives. -/
class Curve (C : Type) where
  /-- The largest supply the curve accepts. -/
  maxShares : C → U256
  /-- The largest amount of assets the curve accepts. -/
  maxAssets : C → U256
  /-- The shares minted for a deposit of assets. -/
  previewDeposit : C → U256 → CurveState → Except CurveError U256
  /-- The assets charged for a mint of shares. -/
  previewMint : C → U256 → CurveState → Except CurveError U256
  /-- The shares burned for a withdrawal of assets. -/
  previewWithdraw : C → U256 → CurveState → Except CurveError U256
  /-- The assets paid for a redemption of shares. -/
  previewRedeem : C → U256 → CurveState → Except CurveError U256
  /-- The shares an amount of assets is worth. -/
  convertToShares : C → U256 → CurveState → Except CurveError U256
  /-- The assets an amount of shares is worth. -/
  convertToAssets : C → U256 → CurveState → Except CurveError U256
  /-- The price of one share. -/
  currentPrice : C → CurveState → Except CurveError U256

/-- A state whose totals the curve accepts. -/
def Curve.InDomain {C : Type} [Curve C] (c : C) (st : CurveState) : Prop :=
  st.totalAssets.toNat ≤ (maxAssets c).toNat ∧ st.totalShares.toNat ≤ (maxShares c).toNat
