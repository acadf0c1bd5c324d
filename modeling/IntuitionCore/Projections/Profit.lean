import IntuitionCore.Projections.PositionOrder
import Mathlib.Tactic.Ring

/-!
# Realized profit

A redemption realizes what it is paid less what its shares cost, and shares
cost the average price of all the deposits so far, those whose shares have
been redeemed before included. A position whose shares have all been redeemed
has then realized what was redeemed less what was deposited exactly if this
average has not drifted: the redeemed shares cost the same at the average
prices they were redeemed at as they would have at the last one.
-/

section

variable (ext : Externals) (k : PositionKey)

/-- What a share cost on average in the deposits of a position. -/
def averagePrice (events : List ParsedEvent) : ℚ :=
  (positionLedger ext).total ParsedEvent.assetsIn k events
    / (positionLedger ext).total ParsedEvent.sharesIn k events

/-- What the shares redeemed after some events cost, each redemption at the
average price of the deposits before it. -/
def redeemedAtCost : List ParsedEvent → List ParsedEvent → ℚ
  | _, [] => 0
  | before, e :: es =>
    (if (positionLedger ext).concerns k e then e.sharesOut * averagePrice ext k before else 0)
      + redeemedAtCost (before ++ [e]) es

/-- Each redemption after some events is of shares that are held then. -/
def RedeemsWhatIsHeld : List ParsedEvent → List ParsedEvent → Prop
  | _, [] => True
  | before, e :: es =>
    ((positionLedger ext).concerns k e = true → e.type? = some .redeemed → 0 < e.sharesOut
        ∧ e.sharesOut ≤ (positionLedger ext).total ParsedEvent.sharesIn k before
          - (positionLedger ext).total ParsedEvent.sharesOut k before)
      ∧ RedeemsWhatIsHeld (before ++ [e]) es

instance decidableRedeemsWhatIsHeld : ∀ before es : List ParsedEvent,
    Decidable (RedeemsWhatIsHeld ext k before es)
  | _, [] => inferInstanceAs (Decidable True)
  | before, e :: es =>
    have := decidableRedeemsWhatIsHeld (before ++ [e]) es
    inferInstanceAs (Decidable (_ ∧ _))

/-- The average price a position was deposited at has not drifted: the redeemed
shares cost the same at the last one. Nothing was paid for no shares. -/
def PriceHolds (events : List ParsedEvent) : Prop :=
  redeemedAtCost ext k [] events
      = (positionLedger ext).total ParsedEvent.sharesOut k events * averagePrice ext k events
    ∧ ((positionLedger ext).total ParsedEvent.sharesIn k events = 0 →
      (positionLedger ext).total ParsedEvent.assetsIn k events = 0)

end

variable {ext : Externals} {k : PositionKey} {e : ParsedEvent} {before es : List ParsedEvent}

/-- With exact division, the cost basis of a position is its average price. -/
theorem costBasis_eq_averagePrice (hdiv : ∀ x y, ext.numericDiv x y = x / y)
    (hunsigned : ∀ e ∈ es, e.Unsigned) :
    (((positionLedger ext).apply k none es).getD {}).costBasis = averagePrice ext k es := by
  rw [costBasis_apply, hdiv, averagePrice]
  split
  · rfl
  · next h =>
    have hnonneg := (positionLedger ext).total_nonneg (f := ParsedEvent.sharesIn) (k := k)
      fun e he => (hunsigned e he).1
    rw [le_antisymm (not_lt.mp h) hnonneg, div_zero]

/-- A redemption realizes what it is paid less what its shares cost. -/
theorem positionLedger_step_realizedPnl (r : Option PositionRow) (e : ParsedEvent) :
    (((positionLedger ext).step r e).getD {}).realizedPnl
      = (r.getD {}).realizedPnl + (e.assetsOut - e.sharesOut * (r.getD {}).costBasis) := by
  cases e with
  | redeemed metadata data =>
    cases r with
    | none =>
      show data.assets.val = 0 + (data.assets.val - data.shares.val * 0)
      rw [mul_zero, sub_zero, zero_add]
    | some r => rfl
  | deposited =>
    show _ = (r.getD {}).realizedPnl + (0 - 0 * (r.getD {}).costBasis)
    rw [zero_mul, sub_zero, add_zero]
    cases r <;> rfl
  | _ =>
    show (r.getD {}).realizedPnl = (r.getD {}).realizedPnl + (0 - 0 * (r.getD {}).costBasis)
    rw [zero_mul, sub_zero, add_zero]

/-- **What a position has realized** is what was redeemed less what that had
cost. -/
theorem realizedPnl_append (ext : Externals) (k : PositionKey) (before es : List ParsedEvent)
    (hdiv : ∀ x y, ext.numericDiv x y = x / y) (hunsigned : ∀ e ∈ before ++ es, e.Unsigned) :
    (((positionLedger ext).apply k none (before ++ es)).getD {}).realizedPnl
      = (((positionLedger ext).apply k none before).getD {}).realizedPnl
        + (positionLedger ext).total ParsedEvent.assetsOut k es
        - redeemedAtCost ext k before es := by
  induction es generalizing before with
  | nil =>
    rw [List.append_nil, Ledger.total_nil, redeemedAtCost, add_zero, sub_zero]
  | cons e es ih =>
    rw [List.append_cons] at hunsigned ⊢
    rw [ih _ hunsigned, Ledger.apply_append, Ledger.apply_cons, Ledger.apply_nil, Ledger.total_cons,
      redeemedAtCost]
    cases (positionLedger ext).concerns k e with
    | false => simp
    | true =>
      have hbefore : ∀ f ∈ before, f.Unsigned := fun f hf => hunsigned f (by simp [hf])
      simp only [if_true]
      rw [positionLedger_step_realizedPnl, costBasis_eq_averagePrice hdiv hbefore]
      ring

theorem redeemedAtCost_eq_zero
    (h : ∀ e ∈ es, (positionLedger ext).concerns k e = true → e.sharesOut = 0) :
    redeemedAtCost ext k before es = 0 := by
  induction es generalizing before with
  | nil => rfl
  | cons e es ih =>
    rw [redeemedAtCost, ih fun f hf => h f (List.mem_cons_of_mem _ hf), add_zero]
    split
    · next hk => rw [h e List.mem_cons_self hk, zero_mul]
    · rfl

/-- **Redeemed shares cost what was deposited exactly if the price holds**,
where all of them have been redeemed. -/
theorem redeemedAtCost_eq_assetsIn_iff (hunsigned : ∀ e ∈ es, e.Unsigned)
    (hshares : (positionLedger ext).total ParsedEvent.sharesIn k es
      = (positionLedger ext).total ParsedEvent.sharesOut k es) :
    redeemedAtCost ext k [] es = (positionLedger ext).total ParsedEvent.assetsIn k es
      ↔ PriceHolds ext k es := by
  unfold PriceHolds averagePrice
  rw [← hshares]
  by_cases hzero : (positionLedger ext).total ParsedEvent.sharesIn k es = 0
  · -- no shares were ever moved, so none was redeemed at any price
    have hnone : redeemedAtCost ext k [] es = 0 := redeemedAtCost_eq_zero fun e he hk =>
      (positionLedger ext).eq_zero_of_total_eq_zero (fun e he => (hunsigned e he).2)
        (hshares ▸ hzero) he hk
    rw [hnone, hzero, zero_mul]
    simp [eq_comm]
  · rw [mul_div_cancel₀ _ hzero]
    exact ⟨fun h => ⟨h, fun h0 => absurd h0 hzero⟩, And.left⟩

/-! ## Deposits that precede all redemptions -/

theorem redeemedAtCost_append (fs : List ParsedEvent) :
    redeemedAtCost ext k before (es ++ fs)
      = redeemedAtCost ext k before es + redeemedAtCost ext k (before ++ es) fs := by
  induction es generalizing before with
  | nil => rw [redeemedAtCost, zero_add, List.nil_append, List.append_nil]
  | cons e es ih =>
    rw [List.cons_append, redeemedAtCost, redeemedAtCost, ih, ← List.append_cons, add_assoc]

/-- After the last deposit, every share costs the same. -/
theorem redeemedAtCost_of_no_deposits (h : ∀ e ∈ es, e.assetsIn = 0 ∧ e.sharesIn = 0) :
    redeemedAtCost ext k before es
      = (positionLedger ext).total ParsedEvent.sharesOut k es * averagePrice ext k before := by
  induction es generalizing before with
  | nil => exact (zero_mul _).symm
  | cons e es ih =>
    have he := h e List.mem_cons_self
    have hprice : averagePrice ext k (before ++ [e]) = averagePrice ext k before := by
      unfold averagePrice
      simp only [Ledger.total_append, Ledger.total_cons, Ledger.total_nil, he.1, he.2, ite_self,
        add_zero]
    rw [redeemedAtCost, Ledger.total_cons, ih fun f hf => h f (List.mem_cons_of_mem _ hf), hprice,
      add_mul, ite_mul, zero_mul]

/-- **The price holds if all deposits precede all redemptions**, and nothing is
paid for no shares. -/
theorem priceHolds_of_deposits_first {deposits redemptions : List ParsedEvent}
    (hdeposits : ∀ e ∈ deposits, e.sharesOut = 0)
    (hredemptions : ∀ e ∈ redemptions, e.assetsIn = 0 ∧ e.sharesIn = 0)
    (hpaid : (positionLedger ext).total ParsedEvent.sharesIn k deposits ≠ 0) :
    PriceHolds ext k (deposits ++ redemptions) := by
  have hzero : ∀ f : ParsedEvent → ℚ, (∀ e ∈ redemptions, f e = 0) →
      (positionLedger ext).total f k redemptions = 0 := fun f h =>
    (positionLedger ext).total_eq_zero fun e he _ => h e he
  have hshares := hzero _ fun e he => (hredemptions e he).2
  have hassets := hzero _ fun e he => (hredemptions e he).1
  have hout : (positionLedger ext).total ParsedEvent.sharesOut k deposits = 0 :=
    (positionLedger ext).total_eq_zero fun e he _ => hdeposits e he
  unfold PriceHolds averagePrice
  rw [redeemedAtCost_append, redeemedAtCost_eq_zero fun e he _ => hdeposits e he, List.nil_append,
    redeemedAtCost_of_no_deposits hredemptions, Ledger.total_append, Ledger.total_append,
    Ledger.total_append, hshares, hassets, hout]
  simp only [zero_add, add_zero]
  exact ⟨rfl, fun h => absurd h hpaid⟩

/-! ## The profit of a position -/

/-- **Profit accounting closes exactly if the price holds**: a position left
without shares has realized what was redeemed less what was deposited, if and
only if its shares cost the same at the prices they were redeemed at as at the
last one. -/
theorem realizedPnl_eq_iff (hext : ext.Lawful) (hdiv : ∀ x y, ext.numericDiv x y = x / y)
    {p : PgProjection} {pool pool' : Stores} {batches : List (List ParsedEvent)}
    (hrun : batches.foldlM (p.processParsedBatch ext) pool = .ok pool')
    (hown : ownsPositionRow ext p k = true) (hnone : pool.db.position.lookup k = none)
    (hunsigned : ∀ e ∈ batches.flatten, e.Unsigned) {row : PositionRow}
    (hrow : pool'.db.position.lookup k = some row) (hclosed : row.shares = 0) :
    row.realizedPnl = (positionLedger ext).total ParsedEvent.assetsOut k batches.flatten
        - (positionLedger ext).total ParsedEvent.assetsIn k batches.flatten
      ↔ PriceHolds ext k batches.flatten := by
  have hrows := position_lookup_of_batches hext hrun hown hnone
  rw [hrow] at hrows
  have hpnl := realizedPnl_append ext k [] batches.flatten hdiv hunsigned
  have hshares := shares_apply ext k batches.flatten
  rw [List.nil_append, Ledger.apply_nil, ← hrows] at hpnl
  rw [← hrows] at hshares
  simp only [Option.getD_some, Option.getD_none, zero_add] at hpnl hshares
  rw [← redeemedAtCost_eq_assetsIn_iff hunsigned
      (sub_eq_zero.mp (hshares.symm.trans hclosed)), hpnl,
    sub_right_inj]

/-! ## A position that is reopened at another price -/

/-- A later deposit of ten shares, for thirty assets. -/
def depositedAtThirty : ParsedEvent := ParsedEvent.parseOrUnknown
  { firstDeposit with
    sequenceNumber := 3
    eventData := { deposited := some { firstDepositData with assetsAfterFees := ⟨30, 0⟩ } } }

/-- Their redemption, for thirty assets. -/
def redeemedAtThirty : ParsedEvent := ParsedEvent.parseOrUnknown
  { firstRedemption with
    sequenceNumber := 4
    eventData := { redeemed := some { firstRedemptionData with assets := ⟨30, 0⟩ } } }

/-- A position that is closed, and then reopened and closed at another price. -/
def reopenedLog : List ParsedEvent :=
  [depositedTen, redeemedTen, depositedAtThirty, redeemedAtThirty]

/-- The accounting closes for a position that is deposited and redeemed once. -/
theorem realizedPnl_eq_deposited_once : ∃ row : PositionRow,
    row.realizedPnl = (positionLedger .exact).total ParsedEvent.assetsOut (firstPosition .exact)
        [depositedTen, redeemedTen]
      - (positionLedger .exact).total ParsedEvent.assetsIn (firstPosition .exact)
        [depositedTen, redeemedTen] := by
  have hrun : [[depositedTen, redeemedTen]].foldlM
      (solePositionProjection.processParsedBatch .exact) {} = .ok _ := rfl
  have hholds : PriceHolds .exact (firstPosition .exact) ([depositedTen] ++ [redeemedTen]) := by
    refine priceHolds_of_deposits_first (fun e he => ?_) (fun e he => ?_) (by decide +kernel)
    · rw [List.mem_singleton.mp he]
      rfl
    · rw [List.mem_singleton.mp he]
      exact ⟨rfl, rfl⟩
  exact ⟨_, (realizedPnl_eq_iff Externals.exact_lawful (fun _ _ => rfl) hrun rfl rfl
    (by simpa using ⟨unsigned_depositedTen, unsigned_redeemedTen⟩)
    (rfl : Finmap.lookup (firstPosition .exact) _ = some _) (by decide +kernel)).mpr hholds⟩

/-- **The accounting may not close**: a position that is reopened at a higher
price redeems its new shares at the average of both prices, and keeps a profit
of ten although forty was redeemed and forty deposited. -/
theorem realizedPnl_reopened_not_closing :
    ∃ pool row, [reopenedLog].foldlM
        (solePositionProjection.processParsedBatch .exact) {} = .ok pool
      ∧ pool.db.position.lookup (firstPosition .exact) = some row
      ∧ RedeemsWhatIsHeld .exact (firstPosition .exact) [] reopenedLog
      ∧ row.shares = 0
      ∧ row.realizedPnl
        ≠ (positionLedger .exact).total ParsedEvent.assetsOut (firstPosition .exact) reopenedLog
          - (positionLedger .exact).total ParsedEvent.assetsIn (firstPosition .exact)
            reopenedLog := by
  refine ⟨_, _, rfl, rfl, ?_, ?_, ?_⟩
  · decide +kernel
  · decide +kernel
  · decide +kernel
