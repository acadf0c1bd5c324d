import IntuitionCore.Projections.Amounts
import IntuitionCore.Projections.Positions

/-!
# Positions and the order of arrival

A position sums up its deposits and its redemptions, and its cost basis is the
average price of all its deposits so far. None of that depends on the order the
events arrived in. When it was closed does: the date is written by a
redemption that finds a row and leaves it without shares, erased by a deposit,
and written by neither when the redemption makes the row itself or the deposit
that comes last still leaves no shares.
-/

open Result

section

variable (ext : Externals) (k : PositionKey)

/-- The row that the deposits of a position alone would leave. -/
def depositsAlone (events : List ParsedEvent) : PositionRow :=
  ((positionLedger ext).apply k none
    (events.filter fun e => e.type? = some .deposited)).getD {}

/-- The row of a position is what its events make of it in any order: its shares
and its deposits are sums, and it is closed if it has no shares. -/
structure PositionExact (events : List ParsedEvent) (row : PositionRow) : Prop where
  shares_eq : row.shares = (positionLedger ext).total ParsedEvent.sharesIn k events
    - (positionLedger ext).total ParsedEvent.sharesOut k events
  totalDeposits_eq : row.totalDeposits = (depositsAlone ext k events).totalDeposits
  costBasis_eq : row.costBasis = (depositsAlone ext k events).costBasis
  closedAt_iff : row.closedAt ≠ none ↔ row.shares ≤ 0

/-- The last event of a position is a redemption, and not the only one. -/
def EndsRedeeming (events : List ParsedEvent) : Prop :=
  ∃ es e, events.filter ((positionLedger ext).concerns k) = es ++ [e] ∧ es ≠ []
    ∧ e.type? = some .redeemed

/-- More shares were deposited than redeemed. -/
def LeavesPosition (events : List ParsedEvent) : Prop :=
  (positionLedger ext).total ParsedEvent.sharesOut k events
    < (positionLedger ext).total ParsedEvent.sharesIn k events

/-- The cost basis of a row is the average price of its deposits. -/
def PositionRow.Costed (ext : Externals) (r : PositionRow) : Prop :=
  r.totalDeposits = r.totalDepositsValue
    ∧ r.costBasis = if r.totalSharesAcquired > 0
        then ext.numericDiv r.totalDepositsValue r.totalSharesAcquired else 0

end

variable {ext : Externals} {k : PositionKey} {r : Option PositionRow} {e : ParsedEvent}
  {es : List ParsedEvent}

/-! ## What the statements keep -/

/-- An event adds what it moves to the shares of its position. -/
theorem positionLedger_step_shares (r : Option PositionRow) (e : ParsedEvent) :
    (((positionLedger ext).step r e).getD {}).shares = (r.getD {}).shares + e.sharesDelta := by
  cases e with
  | deposited metadata data =>
    cases r with
    | none =>
      show data.shares.val = 0 + (data.shares.val - 0)
      rw [zero_add, sub_zero]
    | some r => exact congrArg (r.shares + ·) (sub_zero _).symm
  | redeemed metadata data =>
    cases r with
    | none =>
      show -data.shares.val = 0 + (0 - data.shares.val)
      rw [zero_add, zero_sub]
    | some r =>
      show r.shares - data.shares.val = r.shares + (0 - data.shares.val)
      rw [zero_sub, sub_eq_add_neg]
  | _ =>
    show (r.getD {}).shares = (r.getD {}).shares + (0 - 0)
    rw [sub_zero, add_zero]

/-- An event adds what it deposits to the value of its position's deposits. -/
theorem positionLedger_step_totalDepositsValue (r : Option PositionRow) (e : ParsedEvent) :
    (((positionLedger ext).step r e).getD {}).totalDepositsValue
      = (r.getD {}).totalDepositsValue + e.assetsIn := by
  cases e with
  | deposited => cases r <;> first | rfl | exact (zero_add _).symm
  | redeemed => cases r <;> exact (add_zero _).symm
  | _ => exact (add_zero _).symm

/-- An event adds the shares it deposits to the ones its position acquired. -/
theorem positionLedger_step_totalSharesAcquired (r : Option PositionRow) (e : ParsedEvent) :
    (((positionLedger ext).step r e).getD {}).totalSharesAcquired
      = (r.getD {}).totalSharesAcquired + e.sharesIn := by
  cases e with
  | deposited => cases r <;> first | rfl | exact (zero_add _).symm
  | redeemed => cases r <;> exact (add_zero _).symm
  | _ => exact (add_zero _).symm

/-- Every event leaves a row whose cost basis is the average price of its
deposits. -/
theorem positionLedger_step_costed (e : ParsedEvent) (h : (r.getD {}).Costed ext) :
    (((positionLedger ext).step r e).getD {}).Costed ext := by
  cases e with
  | deposited metadata data =>
    cases r with
    | none => exact ⟨rfl, rfl⟩
    | some r => exact ⟨congrArg (· + data.assetsAfterFees.val) h.1, rfl⟩
  | redeemed metadata data =>
    cases r with
    | none => exact ⟨rfl, (if_neg (lt_irrefl 0)).symm⟩
    | some r => exact h
  | _ => exact h

/-- The empty row is one of these. -/
theorem costed_default : ((none : Option PositionRow).getD {}).Costed ext :=
  ⟨rfl, (if_neg (lt_irrefl 0)).symm⟩

/-! ## What the events leave -/

/-- The sums of a position, in any order. -/
theorem shares_apply (ext : Externals) (k : PositionKey) (es : List ParsedEvent) :
    (((positionLedger ext).apply k none es).getD {}).shares
      = (positionLedger ext).total ParsedEvent.sharesIn k es
        - (positionLedger ext).total ParsedEvent.sharesOut k es := by
  have hsub : (positionLedger ext).total ParsedEvent.sharesDelta k (es : Multiset _)
      = (positionLedger ext).total ParsedEvent.sharesIn k es
        - (positionLedger ext).total ParsedEvent.sharesOut k es := Multiset.sum_map_sub
  rw [← hsub, ← zero_add ((positionLedger ext).total _ _ _)]
  refine (positionLedger ext).measure_apply (P := fun _ => True)
    (μ := fun r : Option PositionRow => (r.getD {}).shares) (fun _ _ _ => trivial) ?_ trivial
  intro r e _
  exact positionLedger_step_shares r e

theorem totalDepositsValue_apply :
    (((positionLedger ext).apply k none es).getD {}).totalDepositsValue
      = (positionLedger ext).total ParsedEvent.assetsIn k es := by
  rw [← zero_add ((positionLedger ext).total _ _ _)]
  refine (positionLedger ext).measure_apply (P := fun _ => True)
    (μ := fun r : Option PositionRow => (r.getD {}).totalDepositsValue) (fun _ _ _ => trivial) ?_
    trivial
  intro r e _
  exact positionLedger_step_totalDepositsValue r e

theorem totalSharesAcquired_apply :
    (((positionLedger ext).apply k none es).getD {}).totalSharesAcquired
      = (positionLedger ext).total ParsedEvent.sharesIn k es := by
  rw [← zero_add ((positionLedger ext).total _ _ _)]
  refine (positionLedger ext).measure_apply (P := fun _ => True)
    (μ := fun r : Option PositionRow => (r.getD {}).totalSharesAcquired) (fun _ _ _ => trivial) ?_
    trivial
  intro r e _
  exact positionLedger_step_totalSharesAcquired r e

theorem costed_apply : (((positionLedger ext).apply k none es).getD {}).Costed ext :=
  (positionLedger ext).apply_invariant (P := fun r => (r.getD {}).Costed ext)
    (fun e _ _ _ h => positionLedger_step_costed e h) costed_default

/-- The price the deposits of a position were made at, on average. -/
theorem costBasis_apply :
    (((positionLedger ext).apply k none es).getD {}).costBasis
      = if (positionLedger ext).total ParsedEvent.sharesIn k es > 0
          then ext.numericDiv ((positionLedger ext).total ParsedEvent.assetsIn k es)
            ((positionLedger ext).total ParsedEvent.sharesIn k es)
          else 0 := by
  rw [costed_apply.2, totalDepositsValue_apply, totalSharesAcquired_apply]

/-- Only deposits move assets into a vault, and shares to an account. -/
theorem ParsedEvent.moves_in_of_ne_deposited (h : decide (e.type? = some .deposited) = false) :
    e.assetsIn = 0 ∧ e.sharesIn = 0 := by
  cases e with
  | deposited => cases h
  | _ => exact ⟨rfl, rfl⟩

/-- What was deposited, and at which price, is what the deposits alone leave. -/
theorem deposits_apply (ext : Externals) (k : PositionKey) (es : List ParsedEvent) :
    (((positionLedger ext).apply k none es).getD {}).totalDeposits
        = (depositsAlone ext k es).totalDeposits
      ∧ (((positionLedger ext).apply k none es).getD {}).costBasis
        = (depositsAlone ext k es).costBasis := by
  have hassets := (positionLedger ext).total_filter ParsedEvent.assetsIn k es
    (p := fun e => e.type? = some .deposited) fun _ h => (ParsedEvent.moves_in_of_ne_deposited h).1
  have hshares := (positionLedger ext).total_filter ParsedEvent.sharesIn k es
    (p := fun e => e.type? = some .deposited) fun _ h => (ParsedEvent.moves_in_of_ne_deposited h).2
  unfold depositsAlone
  constructor
  · rw [costed_apply.1, costed_apply.1, totalDepositsValue_apply, totalDepositsValue_apply, hassets]
  · rw [costBasis_apply, costBasis_apply, hassets, hshares]

/-! ## When a position is closed -/

/-- A position that has a closing date has no shares, as long as no redemption
gives any. -/
theorem shares_nonpos_of_closedAt (hunsigned : ∀ e ∈ es, e.Unsigned) :
    (((positionLedger ext).apply k none es).getD {}).closedAt ≠ none →
      (((positionLedger ext).apply k none es).getD {}).shares ≤ 0 := by
  refine (positionLedger ext).apply_invariant
    (P := fun r => (r.getD {}).closedAt ≠ none → (r.getD {}).shares ≤ 0)
    (fun e he _ r hr => ?_) (fun h => absurd rfl h)
  cases e with
  | deposited => cases r <;> exact fun h => absurd rfl h
  | redeemed metadata data =>
    have hout : 0 ≤ data.shares.val := (hunsigned _ he).2
    cases r with
    | none => exact fun h => absurd rfl h
    | some r =>
      show (if r.shares - data.shares.val ≤ 0 then some metadata.blockTimestamp else r.closedAt)
        ≠ none → r.shares - data.shares.val ≤ 0
      split
      · next hle => exact fun _ => hle
      · exact fun h => (sub_le_self _ hout).trans (hr h)
  | _ => exact hr

/-- The last event decides whether a position without shares has a closing
date. -/
theorem closedAt_step_iff {row : PositionRow} (hinv : (r.getD {}).closedAt ≠ none →
      (r.getD {}).shares ≤ 0) (hunsigned : e.Unsigned)
    (hrow : (positionLedger ext).step r e = some row)
    (htype : e.type? = some .deposited ∨ e.type? = some .redeemed) :
    (row.closedAt ≠ none ↔ row.shares ≤ 0)
      ↔ 0 < row.shares ∨ r ≠ none ∧ e.type? = some .redeemed := by
  cases e with
  | deposited metadata data =>
    have hclosed : row.closedAt = none := by cases r <;> cases hrow <;> rfl
    have hdep : ¬ (r ≠ none ∧ (some EventType.deposited) = some .redeemed) := by simp
    show _ ↔ 0 < row.shares ∨ (r ≠ none ∧ (some EventType.deposited) = some .redeemed)
    rw [or_iff_left hdep, ← not_le, hclosed]
    simp
  | redeemed metadata data =>
    have hout : 0 ≤ data.shares.val := hunsigned.2
    cases r with
    | none =>
      cases hrow
      have hle : ¬ (0 < -data.shares.val) := by linarith
      simp [PositionRow.onRedeem, ParsedEvent.type?, hle]
      linarith
    | some r =>
      cases hrow
      refine iff_of_true ?_ (.inr ⟨Option.some_ne_none r, rfl⟩)
      show (if r.shares - data.shares.val ≤ 0 then some metadata.blockTimestamp else r.closedAt)
        ≠ none ↔ r.shares - data.shares.val ≤ 0
      split
      · next hle => exact iff_of_true (Option.some_ne_none _) hle
      · next hle => exact iff_of_false (fun h => hle ((sub_le_self _ hout).trans (hinv h))) hle
  | _ => simp [ParsedEvent.type?] at htype

/-- An event of a position is a deposit or a redemption. -/
theorem type?_of_concerns (h : (positionLedger ext).concerns k e = true) :
    e.type? = some .deposited ∨ e.type? = some .redeemed := by
  cases e with
  | deposited => exact .inl rfl
  | redeemed => exact .inr rfl
  | _ => cases of_decide_eq_true h

/-- The events of a position leave it a row. -/
theorem positionLedger_apply_ne_none
    (h : ∃ e ∈ es, (positionLedger ext).concerns k e = true) :
    (positionLedger ext).apply k none es ≠ none := by
  obtain ⟨e, he, hk⟩ := h
  refine (positionLedger ext).apply_of_mem (P := (· ≠ none)) (fun r e hr => ?_)
    (.inr ⟨e, he, hk, fun r => ?_⟩)
  · cases e with
    | deposited | redeemed => exact Option.some_ne_none _
    | _ => exact hr
  · cases e with
    | deposited | redeemed => exact Option.some_ne_none _
    | _ => cases of_decide_eq_true hk

/-- **The row of a position is exact exactly if it is left with shares, or the
last event is a redemption and not the only one.** -/
theorem positionExact_apply {row : PositionRow} (hunsigned : ∀ e ∈ es, e.Unsigned)
    (hrow : (positionLedger ext).apply k none es = some row) :
    PositionExact ext k es row ↔ LeavesPosition ext k es ∨ EndsRedeeming ext k es := by
  have hshares := shares_apply ext k es
  have hdeposits := deposits_apply ext k es
  rw [hrow] at hshares hdeposits
  have hexact : PositionExact ext k es row ↔ (row.closedAt ≠ none ↔ row.shares ≤ 0) :=
    ⟨fun h => h.closedAt_iff, fun h => ⟨hshares, hdeposits.1, hdeposits.2, h⟩⟩
  have hleaves : LeavesPosition ext k es ↔ 0 < row.shares := by
    rw [show row.shares = _ from hshares]
    exact sub_pos.symm
  rw [hexact, hleaves]
  -- only the events of the position count, and the last of them decides
  have hfilter : (positionLedger ext).apply k none (es.filter ((positionLedger ext).concerns k))
      = (positionLedger ext).apply k none es := (positionLedger ext).apply_filter fun _ _ h => h
  rw [← hfilter] at hrow
  obtain hnil | ⟨es', e, hlist⟩ :=
    List.eq_nil_or_concat (es.filter ((positionLedger ext).concerns k))
  · rw [hnil] at hrow
    cases hrow
  · rw [List.concat_eq_append] at hlist
    have hmem : ∀ f ∈ es' ++ [e], f ∈ es ∧ (positionLedger ext).concerns k f = true := by
      intro f hf
      exact List.mem_filter.mp (hlist ▸ hf)
    have hlast := hmem e (by simp)
    have hbefore : ∀ f ∈ es', f ∈ es ∧ (positionLedger ext).concerns k f = true :=
      fun f hf => hmem f (List.mem_append_left _ hf)
    rw [hlist, Ledger.apply_append, Ledger.apply_cons, if_pos hlast.2, Ledger.apply_nil] at hrow
    have hne : (positionLedger ext).apply k none es' ≠ none ↔ es' ≠ [] := by
      constructor
      · rintro h rfl
        exact h rfl
      · intro h
        obtain ⟨f, hf⟩ := List.exists_mem_of_ne_nil es' h
        exact positionLedger_apply_ne_none ⟨f, hf, (hbefore f hf).2⟩
    rw [closedAt_step_iff (shares_nonpos_of_closedAt fun f hf => hunsigned f (hbefore f hf).1)
      (hunsigned e hlast.1) hrow (type?_of_concerns hlast.2), hne]
    refine or_congr Iff.rfl ⟨fun h => ⟨es', e, hlist, h⟩, ?_⟩
    rintro ⟨es'', e', hlist', h⟩
    obtain ⟨rfl, he⟩ := List.append_inj' (hlist.symm.trans hlist') rfl
    cases he
    exact h

/-- The row of a position after batches of the worker that writes it. -/
theorem position_lookup_of_batches (hext : ext.Lawful) {p : PgProjection} {pool pool' : Stores}
    {batches : List (List ParsedEvent)}
    (hrun : batches.foldlM (p.processParsedBatch ext) pool = .ok pool')
    (hown : ownsPositionRow ext p k = true) (hnone : pool.db.position.lookup k = none) :
    pool'.db.position.lookup k = (positionLedger ext).apply k none batches.flatten := by
  refine ((positionRows hext).rows_processBatches hrun k).trans ?_
  rw [if_pos (show (positionRows hext).owns p k = true from hown)]
  exact congrArg ((positionLedger ext).apply k · _) hnone

/-- **The row of a position is what its events make of it in any order exactly
if they leave it shares, or the last of them is a redemption and not the only
one.** -/
theorem positionExact_iff (hext : ext.Lawful) {p : PgProjection} {pool pool' : Stores}
    {batches : List (List ParsedEvent)}
    (hrun : batches.foldlM (p.processParsedBatch ext) pool = .ok pool')
    (hown : ownsPositionRow ext p k = true) (hnone : pool.db.position.lookup k = none)
    (hunsigned : ∀ e ∈ batches.flatten, e.Unsigned)
    (hmoved : ∃ e ∈ batches.flatten, (positionLedger ext).concerns k e = true) :
    ∃ row, pool'.db.position.lookup k = some row
      ∧ (PositionExact ext k batches.flatten row
        ↔ LeavesPosition ext k batches.flatten ∨ EndsRedeeming ext k batches.flatten) := by
  obtain ⟨row, hrow⟩ := Option.ne_none_iff_exists'.mp (positionLedger_apply_ne_none hmoved)
  exact ⟨row, (position_lookup_of_batches hext hrun hown hnone).trans hrow,
    positionExact_apply hunsigned hrow⟩

/-! ## A redemption that arrives first -/

/-- The only worker of positions. -/
def solePositionProjection : PgProjection := .positionTracking 0 1

/-- The condition is met by a position that is deposited and then redeemed. -/
theorem positionExact_iff_deposited_first : ∃ row, PositionExact .exact (firstPosition .exact)
    [depositedTen, redeemedTen] row := by
  have hrun : [[depositedTen, redeemedTen]].foldlM
      (solePositionProjection.processParsedBatch .exact) {} = .ok _ := rfl
  obtain ⟨row, -, hiff⟩ := positionExact_iff Externals.exact_lawful (k := firstPosition .exact) hrun
    rfl rfl (by simpa using ⟨unsigned_depositedTen, unsigned_redeemedTen⟩)
    ⟨depositedTen, by simp, decide_eq_true rfl⟩
  refine ⟨row, hiff.mpr (.inr ⟨[depositedTen], redeemedTen, ?_, by simp, rfl⟩)⟩
  rfl

/-- **A position may be left without shares and never be closed**: the
redemption that arrives first makes a row without a closing date, and the
deposit that makes up for it erases it. -/
theorem position_redeemed_first_not_exact :
    ∃ pool row, [[redeemedTen], [depositedTen]].foldlM
        (solePositionProjection.processParsedBatch .exact) {} = .ok pool
      ∧ pool.db.position.lookup (firstPosition .exact) = some row
      ∧ ¬ PositionExact .exact (firstPosition .exact) [redeemedTen, depositedTen] row := by
  refine ⟨_, _, rfl, rfl, fun h => h.closedAt_iff.mpr ?_ rfl⟩
  decide +kernel
