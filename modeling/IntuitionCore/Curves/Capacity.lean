import IntuitionCore.Curves.Solvency

/-!
# Deposits inside the capacity of a curve

A deposit that leaves the assets of a curve within its capacity should be
quoted, or refused because it would issue more shares than there may be. What
stands in the way is the last subtraction of the quote: the root of the new
square, less the offset supply. The square of the supply is rounded down before
the root is taken, so a deposit too small to move the square by a unit comes
back to less than the supply it started from, and the quote fails with an
underflow.

Everything else fits. The largest square times two is within 256 bits, and a
deposit within the capacity adds at most one more of it.
-/

open Math Result FixedPoint

namespace OffsetProgressiveCurve

variable {slope offset : U256} {c : OffsetProgressiveCurve} {st : CurveState} {a : U256}

/-! ## What the constructor leaves room for -/

/-- The largest offset supply of a curve that was accepted has a square that
fits twice, and its capacity in assets is less than that square times the half
slope. -/
theorem new_capacity (h : new slope offset = .ok c) :
    squareDown unit.toNat (c.maxShares.toNat + c.offset.toNat)
        + squareDown unit.toNat (c.maxShares.toNat + c.offset.toNat) ≤ maxU256 ∧
      c.maxAssets.toNat * unit.toNat
        ≤ squareDown unit.toNat (c.maxShares.toNat + c.offset.toNat) * c.halfSlope.toNat := by
  have hsq : squareDown unit.toNat (c.maxShares.toNat + c.offset.toNat)
      ≤ maxU256 / unit.toNat := Nat.div_le_div_right c.square_le
  have htwice : maxU256 / unit.toNat + maxU256 / unit.toNat ≤ maxU256 := by decide
  refine ⟨(Nat.add_le_add hsq hsq).trans htwice, ?_⟩
  rw [new] at h
  split at h
  · cases h
  · split at h
    · cases h
    · simp only [bind_eq_ok, Except.ok.injEq] at h
      obtain ⟨maxAssets, hassets, rfl⟩ := h
      simp only [newMaxAssets, bind_eq_ok] at hassets
      obtain ⟨m, hm, sq, hsq, up, hup, span, hspan, hdiv⟩ := hassets
      rw [add_eq_ok] at hm
      rw [square_eq_ok, hm] at hsq
      rw [sub_eq_ok, hsq] at hspan
      obtain ⟨-, hdiv⟩ := mulDiv_eq_ok.mp hdiv
      show maxAssets.toNat * unit.toNat ≤ _
      rw [hdiv]
      exact (Nat.div_mul_le_self _ _).trans 
        (Nat.mul_le_mul_right _ ((Nat.le_add_right _ _).trans_eq hspan))

/-! ## The quote in full -/

/-- The root a deposit takes: the offset supply it would lead to. -/
def rootAfter (c : OffsetProgressiveCurve) (st : CurveState) (a : ℕ) : ℕ :=
  sqrtDown unit.toNat
    (squareDown unit.toNat (c.offsetSupply st) + a * unit.toNat / c.halfSlope.toNat)

/-- Up to the root, nothing in the quote of a deposit within the capacity
fails. -/
theorem previewDeposit_eq (hc : new slope offset = .ok c) (hdom : Curve.InDomain c st)
    (ha : a.toNat ≤ c.maxAssets.toNat - st.totalAssets.toNat) :
    ∃ root s : U256, root.toNat = c.rootAfter st a.toNat ∧ s.toNat = c.offsetSupply st ∧
      Curve.previewDeposit c a st = (do
        let shares ← sub root s
        checkDepositOut shares st.totalShares c.maxShares
        .ok shares) := by
  obtain ⟨htwice, hcap⟩ := new_capacity hc
  have hs : c.offsetSupply st ≤ c.maxShares.toNat + c.offset.toNat :=
    Nat.add_le_add_right hdom.2 _
  have hsq := squareDown_mono (u := unit.toNat) hs
  -- the deposit adds at most one more largest square
  have hd : a.toNat * unit.toNat / c.halfSlope.toNat
      ≤ squareDown unit.toNat (c.maxShares.toNat + c.offset.toNat) := by
    refine Nat.div_le_of_le_mul ?_
    rw [Nat.mul_comm c.halfSlope.toNat]
    exact (Nat.mul_le_mul_right _ (ha.trans (Nat.sub_le _ _))).trans hcap
  have hroot : c.rootAfter st a.toNat ≤ maxU256 :=
    calc c.rootAfter st a.toNat
        ≤ Nat.sqrt (maxU256 * unit.toNat) :=
          sqrtDown_mono ((Nat.add_le_add hsq hd).trans htwice)
      _ ≤ Nat.sqrt (maxU256 * maxU256) :=
          Nat.sqrt_le_sqrt (Nat.mul_le_mul_left _ (toNat_le_max unit))
      _ = maxU256 := Nat.sqrt_eq _
  obtain ⟨s, hs'⟩ := exists_toNat_eq ((Nat.le_mul_self _).trans
    ((Nat.mul_le_mul hs hs).trans c.square_le))
  obtain ⟨sq, hsq'⟩ := exists_toNat_eq (hsq.trans (by omega))
  obtain ⟨d, hd'⟩ := exists_toNat_eq (hd.trans (by omega))
  obtain ⟨inner, hinner⟩ := exists_toNat_eq
    (show sq.toNat + d.toNat ≤ maxU256 by omega)
  obtain ⟨root, hroot'⟩ := exists_toNat_eq hroot
  refine ⟨root, s, hroot', hs', ?_⟩
  have hA : st.totalAssets.toNat ≤ c.maxAssets.toNat := hdom.1
  have h₁ : checkCurveDomains st.totalAssets st.totalShares c.maxAssets c.maxShares = .ok () :=
    checkDomains_eq_ok.mpr hdom
  have h₂ : checkDepositBounds a st.totalAssets c.maxAssets = .ok () :=
    checkRemaining_eq_ok.mpr (by omega)
  have h₃ : add st.totalShares c.offset = .ok s := add_eq_ok.mpr hs'
  have h₄ : Math.square s = .ok sq := square_eq_ok.mpr (by rw [hsq', hs'])
  have h₅ : mulDiv a unit c.halfSlope = .ok d := mulDiv_eq_ok.mpr ⟨c.halfSlope_pos, hd'⟩
  have h₆ : add sq d = .ok inner := add_eq_ok.mpr hinner
  have h₇ : sqrtUd60x18 inner = .ok root :=
    sqrtUd60x18_eq_ok.mpr (by rw [hroot', hinner, hsq', hd', rootAfter])
  show convertToSharesInternal c a st = _
  rw [convertToSharesInternal, h₁, ok_bind, h₂, ok_bind, h₃, ok_bind, h₄, ok_bind, h₅, ok_bind,
    h₆, ok_bind, h₇, ok_bind]

/-- The check on the shares of a deposit fails in one way only. -/
theorem checkDepositOut_cases {n S m : U256} (h : S.toNat ≤ m.toNat) :
    checkDepositOut n S m = .ok () ∧ S.toNat + n.toNat ≤ m.toNat ∨
      checkDepositOut n S m = .error .sharesOverflowMax ∧ m.toNat < S.toNat + n.toNat := by
  obtain ⟨r, hr⟩ := exists_toNat_eq ((Nat.sub_le m.toNat S.toNat).trans (toNat_le_max m))
  have hsub : checkedSub m S = some r := checkedSub_eq_some.mpr (by omega)
  rw [checkDepositOut, checkRemaining, hsub]
  show (if r < n then _ else _) = _ ∧ _ ∨ (if r < n then _ else _) = _ ∧ _
  by_cases hlt : r < n
  · rw [if_pos hlt]
    rw [BitVec.lt_def] at hlt
    exact .inr ⟨rfl, by omega⟩
  · rw [if_neg hlt]
    rw [BitVec.lt_def] at hlt
    exact .inl ⟨rfl, by omega⟩

/-- **What a deposit within the capacity returns**: an underflow when the root
is below the offset supply, and else the difference, when it may be issued. -/
theorem previewDeposit_cases (hc : new slope offset = .ok c) (hdom : Curve.InDomain c st)
    (ha : a.toNat ≤ c.maxAssets.toNat - st.totalAssets.toNat) :
    c.rootAfter st a.toNat < c.offsetSupply st ∧
        Curve.previewDeposit c a st = .error .mathUnderflow ∨
      ∃ n : U256, c.offsetSupply st + n.toNat = c.rootAfter st a.toNat ∧
        (Curve.previewDeposit c a st = .ok n ∧
            st.totalShares.toNat + n.toNat ≤ c.maxShares.toNat ∨
          Curve.previewDeposit c a st = .error .sharesOverflowMax ∧
            c.maxShares.toNat < st.totalShares.toNat + n.toNat) := by
  obtain ⟨root, s, hroot, hs, hq⟩ := previewDeposit_eq hc hdom ha
  rw [← hroot, ← hs, hq]
  by_cases hlt : root < s
  · refine .inl ⟨BitVec.lt_def.mp hlt, ?_⟩
    rw [sub, checkedSub, if_pos hlt]
    rfl
  · rw [BitVec.lt_def, Nat.not_lt] at hlt
    obtain ⟨n, hn⟩ := exists_toNat_eq
      ((Nat.sub_le root.toNat s.toNat).trans (toNat_le_max root))
    have hsub : sub root s = .ok n := sub_eq_ok.mpr (by omega)
    refine .inr ⟨n, by omega, ?_⟩
    simp only [hsub, ok_bind]
    have hS : st.totalShares.toNat ≤ c.maxShares.toNat := hdom.2
    obtain ⟨hout, hle⟩ | ⟨hout, hgt⟩ := checkDepositOut_cases (n := n) hS
    · exact .inl ⟨by rw [hout, ok_bind], hle⟩
    · exact .inr ⟨by rw [hout, error_bind], hgt⟩

/-! ## Which deposits are answered -/

/-- The root of a deposit is below the offset supply exactly when the deposit
is worth less than a unit of area and the square of the supply is no whole
number of units. -/
theorem rootAfter_lt_iff (c : OffsetProgressiveCurve) (st : CurveState) (a : ℕ) :
    c.rootAfter st a < c.offsetSupply st ↔
      ¬ (c.halfSlope.toNat ≤ a * unit.toNat ∨
        unit.toNat ∣ c.offsetSupply st * c.offsetSupply st) := by
  rw [rootAfter, sqrtDown_squareDown_add_lt_iff unit_pos,
    Nat.div_eq_zero_iff_lt c.halfSlope_pos, Nat.dvd_iff_mod_eq_zero, not_or, Nat.not_le]

/-- A deposit of nothing does not raise the root above the supply. -/
theorem rootAfter_zero_le (c : OffsetProgressiveCurve) (st : CurveState) :
    c.rootAfter st 0 ≤ c.offsetSupply st := by
  rw [rootAfter, Nat.zero_mul, Nat.zero_div, Nat.add_zero, sqrtDown, squareDown]
  calc Nat.sqrt _ ≤ Nat.sqrt (c.offsetSupply st * c.offsetSupply st) :=
        Nat.sqrt_le_sqrt (Nat.div_mul_le_self _ _)
    _ = c.offsetSupply st := Nat.sqrt_eq _

/-- A deposit is answered: with shares, or with the refusal to issue more of
them than there may be. -/
def Answered (c : OffsetProgressiveCurve) (a : U256) (st : CurveState) : Prop :=
  (∃ n, Curve.previewDeposit c a st = .ok n) ∨
    Curve.previewDeposit c a st = .error .sharesOverflowMax

/-- **Which deposits are answered.** Inside the capacity of a curve that was
accepted, a deposit is answered unless it is too small to move the square of
the supply by a unit and that square was rounded; a deposit of nothing returns
nothing exactly when it was not. -/
theorem answered_iff (hc : new slope offset = .ok c) (hdom : Curve.InDomain c st) :
    (∀ a : U256, a.toNat ≤ c.maxAssets.toNat - st.totalAssets.toNat →
      (c.Answered a st ↔ c.halfSlope.toNat ≤ a.toNat * unit.toNat ∨
        unit.toNat ∣ c.offsetSupply st * c.offsetSupply st)) ∧
      (Curve.previewDeposit c 0#256 st = .ok 0#256 ↔
        unit.toNat ∣ c.offsetSupply st * c.offsetSupply st) := by
  refine ⟨fun a ha => ?_, ?_⟩
  · have hlt := c.rootAfter_lt_iff st a.toNat
    rw [iff_not_comm] at hlt
    rw [hlt, Nat.not_lt, Answered]
    obtain ⟨hless, hq⟩ | ⟨n, hn, ⟨hq, -⟩ | ⟨hq, -⟩⟩ := previewDeposit_cases hc hdom ha
    · rw [hq]
      refine iff_of_false ?_ (Nat.not_le.mpr hless)
      rintro (⟨n, hn⟩ | hn) <;> cases hn
    · exact iff_of_true (.inl ⟨n, hq⟩) (by omega)
    · exact iff_of_true (.inr hq) (by omega)
  · have hlt := c.rootAfter_lt_iff st 0
    have hzero : ¬ c.halfSlope.toNat ≤ 0 * unit.toNat := by
      rw [Nat.zero_mul, Nat.not_le]
      exact c.halfSlope_pos
    rw [or_iff_right hzero, iff_not_comm] at hlt
    have hle := c.rootAfter_zero_le st
    have hdom2 : st.totalShares.toNat ≤ c.maxShares.toNat := hdom.2
    rw [hlt, Nat.not_lt]
    obtain ⟨hless, hq⟩ | ⟨n, hn, ⟨hq, -⟩ | ⟨hq, hgt⟩⟩ :=
      previewDeposit_cases hc hdom (a := 0#256) (Nat.zero_le _)
    all_goals rw [show (0#256).toNat = 0 from rfl] at *
    · rw [hq]
      exact iff_of_false (fun h => by cases h) (Nat.not_le.mpr hless)
    · have hn0 : n = 0#256 := by
        rw [← BitVec.toNat_inj]
        show n.toNat = 0
        omega
      exact iff_of_true (hn0 ▸ hq) (by omega)
    · omega

/-- Two deposited in the empty vault of the doubling curve leave a supply whose
square is rounded; one more is still answered there. -/
theorem answered_iff_doubling :
    doubling.Answered 1#256 ⟨2#256, 1414213562#256⟩ :=
  ((@answered_iff 2000000000000000000#256 0#256 doubling ⟨2#256, 1414213562#256⟩
    (by decide +kernel) ⟨by decide, by decide⟩).1 1#256 (by decide)).mpr (.inl (by decide))

/-- The deposit of two that leads there, and the deposit of nothing after it:
the root falls short of the supply. -/
theorem zero_deposit_underflows :
    new 2000000000000000000#256 0#256 = .ok doubling ∧
      Curve.previewDeposit doubling 2#256 {} = .ok 1414213562#256 ∧
      Curve.InDomain doubling ⟨2#256, 1414213562#256⟩ ∧
      Curve.previewDeposit doubling 0#256 ⟨2#256, 1414213562#256⟩ = .error .mathUnderflow := by
  refine ⟨by decide +kernel, by decide +kernel, ⟨by decide, by decide⟩, by decide +kernel⟩

end OffsetProgressiveCurve
