import IntuitionCore.Library.Reflected
import IntuitionCore.Projections.Amounts
import IntuitionCore.Projections.HolderStatements
import Mathlib.Data.Set.Card

/-!
# The index of holders and the order of arrival

The index of active positions has a row for an account as long as it has
shares. A redemption that finds fewer shares than it takes leaves no row, and
what it could not take is forgotten: the shares of an account are a walk that
stops at zero, and agree with what the account should have exactly if no
redemption was ever short of shares, or none is left of what was forgotten.

The holders of a vault are counted at the end of every batch that touches it,
so their number is right whenever the rows are.
-/

section

variable (ext : Externals)

/-- The position of an account in a vault. -/
def VaultKey.positionOf (k : VaultKey) (account : String) : PositionKey :=
  ⟨account, k.termId, k.curveId⟩

/-- The shares an account should have: those deposited to it less those it
redeemed. -/
def netShares (p : PositionKey) (events : Multiset ParsedEvent) : ℚ :=
  (activeLedger ext).total ParsedEvent.sharesIn p events
    - (activeLedger ext).total ParsedEvent.sharesOut p events

/-- The index is exact: an account has a row if it should have shares, and the
row has them; and the accounts that should have shares are counted. -/
structure HoldersExact (k : VaultKey) (events : List ParsedEvent) (db : Db) : Prop where
  shares_eq : ∀ account,
    (db.activeVaultPosition.lookup (k.positionOf account)).map ActiveVaultPositionRow.shares
      = if 0 < netShares ext (k.positionOf account) events
          then some (netShares ext (k.positionOf account) events) else none
  holderCount_eq : ∀ row, db.vault.lookup k = some row →
    row.holderCount = {account | 0 < netShares ext (k.positionOf account) events}.ncard

/-- Nothing is forgotten of an account that should have shares: it never redeems
more than it has. Of another one nothing is left: it never ends up with shares
however late one starts to count, and its last event is no deposit. -/
def NothingForgotten (p : PositionKey) (events : List ParsedEvent) : Prop :=
  if 0 < netShares ext p events then
    ∀ before, before <+: events → 0 ≤ netShares ext p (before : Multiset ParsedEvent)
  else
    (∀ after, after <:+ events → netShares ext p (after : Multiset ParsedEvent) ≤ 0)
      ∧ ∀ e, (events.filter ((activeLedger ext).concerns p)).getLast? = some e →
        e.type? ≠ some .deposited

end

variable {ext : Externals} {p : PositionKey} {k : VaultKey} {e : ParsedEvent}
  {es : List ParsedEvent}

theorem netShares_eq_total (ext : Externals) (p : PositionKey) (es : List ParsedEvent) :
    netShares ext p es = (activeLedger ext).total ParsedEvent.sharesDelta p es :=
  Multiset.sum_map_sub.symm

/-! ## The shares of a row -/

/-- The shares of an active position, none if it has no row. -/
def indexedShares (r : Option ActiveVaultPositionRow) : ℚ :=
  (r.map ActiveVaultPositionRow.shares).getD 0

/-- A redemption takes from a row, and prunes it if nothing is left. -/
theorem activeSharesStep_redeemed (metadata : EventMetadata) (data : RedeemedRecord) (x : ℚ) :
    activeSharesStep (some x) (.redeemed metadata data)
      = if x - data.shares.val ≤ 0 then none else some (x - data.shares.val) := by
  show (some (x - data.shares.val)).filter (fun x => !decide (x ≤ 0)) = _
  by_cases h : x - data.shares.val ≤ 0
  · rw [Option.filter_some, if_neg (by simp only [h]; decide), if_pos h]
  · rw [Option.filter_some, if_pos (by simp only [h]; decide), if_neg h]

/-- **An event adds its part to the shares of an active position, stopping at
zero.** -/
theorem indexedShares_step (hunsigned : e.Unsigned) {r : Option ActiveVaultPositionRow}
    (hr : 0 ≤ indexedShares r) :
    indexedShares ((activeLedger ext).step r e) = max (indexedShares r + e.sharesDelta) 0 := by
  unfold indexedShares at hr ⊢
  rw [activeLedger_step_shares]
  generalize r.map ActiveVaultPositionRow.shares = x at hr ⊢
  cases e with
  | deposited metadata data =>
    have hin : 0 ≤ data.shares.val := hunsigned.1
    show x.getD 0 + data.shares.val = max (x.getD 0 + (data.shares.val - 0)) 0
    rw [sub_zero, max_eq_left (add_nonneg hr hin)]
  | redeemed metadata data =>
    have hout : 0 ≤ data.shares.val := hunsigned.2
    show _ = max (x.getD 0 + (0 - data.shares.val)) 0
    rw [zero_sub, ← sub_eq_add_neg]
    -- without a row nothing happens; a row that is used up is pruned
    cases x with
    | none =>
      rw [Option.getD_none, max_eq_right (sub_nonpos.mpr hout)]
      rfl
    | some x =>
      rw [Option.getD_some, activeSharesStep_redeemed]
      split
      · next hle => rw [max_eq_right hle, Option.getD_none]
      · next hle => rw [max_eq_left (not_le.mp hle).le, Option.getD_some]
  | _ =>
    show x.getD 0 = max (x.getD 0 + (0 - 0)) 0
    rw [sub_zero, add_zero, max_eq_left hr]

/-- A deposit leaves a row. -/
theorem step_ne_none_of_deposited (htype : e.type? = some .deposited)
    (r : Option ActiveVaultPositionRow) : (activeLedger ext).step r e ≠ none := by
  cases e with
  | deposited => exact Option.some_ne_none _
  | _ => cases htype

/-- A redemption leaves no row without shares. -/
theorem step_eq_none_of_redeemed (htype : e.type? = some .redeemed)
    {r : Option ActiveVaultPositionRow}
    (h : indexedShares ((activeLedger ext).step r e) = 0) : (activeLedger ext).step r e = none := by
  cases e with
  | redeemed metadata data =>
    unfold indexedShares at h
    rw [activeLedger_step_shares] at h
    rw [← Option.map_eq_none_iff (f := ActiveVaultPositionRow.shares), activeLedger_step_shares]
    cases r with
    | none => rfl
    | some r =>
      rw [Option.map_some, activeSharesStep_redeemed] at h ⊢
      split at h
      · next hle => exact if_pos hle
      · next hle => exact absurd h.le hle
  | _ => cases htype

/-- An event of an active position is a deposit or a redemption. -/
theorem type?_of_concerns_active (h : (activeLedger ext).concerns p e = true) :
    e.type? = some .deposited ∨ e.type? = some .redeemed := by
  cases e with
  | deposited => exact .inl rfl
  | redeemed => exact .inr rfl
  | _ => cases of_decide_eq_true h

/-- The last event of an active position leaves it its row. -/
theorem exists_apply_eq_step
    (he : (es.filter ((activeLedger ext).concerns p)).getLast? = some e) :
    (activeLedger ext).concerns p e = true
      ∧ ∃ r, (activeLedger ext).apply p none es = (activeLedger ext).step r e := by
  obtain ⟨es', hlist⟩ := List.getLast?_eq_some_iff.mp he
  have hmem : e ∈ es.filter ((activeLedger ext).concerns p) := hlist ▸ by simp
  refine ⟨(List.mem_filter.mp hmem).2, es'.foldl (activeLedger ext).step none, ?_⟩
  unfold Ledger.apply
  rw [hlist, List.foldl_append]
  rfl

/-- **An active position has no row exactly if it has no shares and its last
event is no deposit.** -/
theorem apply_eq_none_iff :
    (activeLedger ext).apply p none es = none
      ↔ indexedShares ((activeLedger ext).apply p none es) = 0
        ∧ ∀ e, (es.filter ((activeLedger ext).concerns p)).getLast? = some e →
          e.type? ≠ some .deposited := by
  constructor
  · intro h
    refine ⟨by rw [h]; rfl, fun e he htype => ?_⟩
    obtain ⟨-, r, hr⟩ := exists_apply_eq_step he
    exact step_ne_none_of_deposited htype r (hr.symm.trans h)
  · rintro ⟨hzero, hlast⟩
    cases he : (es.filter ((activeLedger ext).concerns p)).getLast? with
    | none =>
      unfold Ledger.apply
      rw [List.getLast?_eq_none_iff.mp he]
      rfl
    | some e =>
      obtain ⟨hk, r, hr⟩ := exists_apply_eq_step he
      rw [hr] at hzero ⊢
      exact step_eq_none_of_redeemed ((type?_of_concerns_active hk).resolve_left (hlast e he)) hzero

/-- **The row of an account is right exactly if nothing is forgotten of it.** -/
theorem shares_eq_iff_nothingForgotten (hunsigned : ∀ e ∈ es, e.Unsigned) :
    ((activeLedger ext).apply p none es).map ActiveVaultPositionRow.shares
        = (if 0 < netShares ext p es then some (netShares ext p es) else none)
      ↔ NothingForgotten ext p es := by
  have hstep : ∀ e ∈ es, ∀ r, 0 ≤ indexedShares r →
      indexedShares ((activeLedger ext).step r e) = max (indexedShares r + e.sharesDelta) 0 :=
    fun e he r hr => indexedShares_step (hunsigned e he) hr
  have hnone : indexedShares none = 0 := rfl
  unfold NothingForgotten
  simp only [netShares_eq_total]
  split
  · next hpos =>
    rw [← (activeLedger ext).reflected_eq_total_iff hstep hnone]
    constructor
    · intro h
      exact congrArg (Option.getD · 0) h
    · intro h
      rw [← h] at hpos ⊢
      cases hrow : (activeLedger ext).apply p none es with
      | none =>
        rw [hrow] at hpos
        exact absurd hpos (lt_irrefl 0)
      | some r => rfl
  · rw [← (activeLedger ext).reflected_eq_zero_iff hstep hnone, Option.map_eq_none_iff]
    exact apply_eq_none_iff

/-! ## The number of holders -/

/-- The holders of a vault that has a row are counted. -/
def CountsHolders (k : VaultKey) (db : Db) : Prop :=
  ∀ row, db.vault.lookup k = some row → row.holderCount = countHolders db.activeVaultPosition k

variable {db : Db} {events : List ParsedEvent}

/-- Counting the holders of a vault leaves those of the others counted. -/
theorem countsHolders_refreshHolderCount {k' : VaultKey} (h : CountsHolders k db ∨ k' = k) :
    CountsHolders k (VaultRepo.refreshHolderCount db k'.termId k'.curveId) := by
  intro row hrow
  have hlook : (setHolderCount db.vault db.activeVaultPosition k').lookup k = some row := hrow
  rw [setHolderCount, Table.lookup_update] at hlook
  by_cases hk : k = k'
  · subst hk
    rw [if_pos rfl, Option.map_eq_some_iff] at hlook
    obtain ⟨r, -, rfl⟩ := hlook
    rfl
  · rw [if_neg hk] at hlook
    exact h.resolve_right (fun h => hk h.symm) row hlook

theorem countsHolders_refresh {ks : List VaultKey} (h : CountsHolders k db ∨ k ∈ ks) :
    CountsHolders k
      (ks.foldl (fun tx k => VaultRepo.refreshHolderCount tx k.termId k.curveId) db) := by
  induction ks generalizing db with
  | nil => exact h.resolve_right List.not_mem_nil
  | cons k' ks ih =>
    refine ih ?_
    obtain h | h := h
    · exact .inl (countsHolders_refreshHolderCount (.inl h))
    · obtain rfl | h := List.mem_cons.mp h
      · exact .inl (countsHolders_refreshHolderCount (.inr rfl))
      · exact .inr h

/-- Events of other vaults leave the holders of a vault counted. -/
theorem countsHolders_events (h : CountsHolders k db)
    (hevents : ∀ e ∈ events, touchedVault ext e ≠ some k) :
    CountsHolders k (events.foldl (VaultHoldersIndexProjection.processEvent ext) db) := by
  induction events generalizing db with
  | nil => exact h
  | cons e events ih =>
    refine ih (fun row hrow => ?_) fun e he => hevents e (List.mem_cons_of_mem _ he)
    rw [VaultHoldersIndexProjection.vault_processEvent] at hrow
    rw [h row hrow, VaultHoldersIndexProjection.active_processEvent]
    exact (HolderCounts.countHolders_record _ (hevents e List.mem_cons_self)).symm

/-- **Every batch leaves the holders of a vault counted.** -/
theorem countsHolders_processParsedBatch (ext : Externals) (h : CountsHolders k db)
    (events : List ParsedEvent) :
    CountsHolders k (VaultHoldersIndexProjection.processParsedBatch ext db events) := by
  refine countsHolders_refresh ?_
  -- the vaults that a batch touches are counted at its end
  by_cases htouched : ∃ e ∈ events, touchedVault ext e = some k
  · exact .inr (List.mem_dedup.mpr (List.mem_filterMap.mpr htouched))
  · exact .inl (countsHolders_events h fun e he hk => htouched ⟨e, he, hk⟩)

/-- The holders of a vault are the accounts that have shares in it. -/
theorem countHolders_eq_ncard {t : Table PositionKey ActiveVaultPositionRow} {P : String → Prop}
    (h : ∀ account, (t.lookup (k.positionOf account)).any (fun r => 0 < r.shares) = true
      ↔ P account) :
    countHolders t k = {account | P account}.ncard := by
  let holds (p : PositionKey) (r : ActiveVaultPositionRow) : Bool := p.vault = k ∧ 0 < r.shares
  have hkey : ∀ account, (k.positionOf account).vault = k := fun _ => rfl
  have hholds : ∀ account, (t.lookup (k.positionOf account)).any (holds (k.positionOf account))
      = true ↔ P account := by
    intro account
    rw [← h account]
    simp only [holds, hkey, true_and]
  -- the keys that are counted are those of accounts in this vault
  have hpos : ∀ p ∈ t.keys.filter (fun p => (t.lookup p).any (holds p)),
      p = k.positionOf p.accountId := by
    intro p hp
    obtain ⟨r, -, hr⟩ := (Option.any_eq_true _ _).mp (Table.mem_filter_keys.mp hp)
    rw [← (of_decide_eq_true hr).1]
    rfl
  have himage : {account | P account}
      = PositionKey.accountId '' ↑(t.keys.filter fun p => (t.lookup p).any (holds p)) := by
    ext account
    rw [Set.mem_ofPred_eq, Set.mem_image, ← hholds account]
    constructor
    · exact fun hany => ⟨_, Finset.mem_coe.mpr (Table.mem_filter_keys.mpr hany), rfl⟩
    · rintro ⟨p, hp, rfl⟩
      rw [← hpos p (Finset.mem_coe.mp hp)]
      exact Table.mem_filter_keys.mp (Finset.mem_coe.mp hp)
  have hinj : Set.InjOn PositionKey.accountId
      ↑(t.keys.filter fun p => (t.lookup p).any (holds p)) := by
    intro p hp q hq hpq
    rw [hpos p (Finset.mem_coe.mp hp), hpos q (Finset.mem_coe.mp hq), hpq]
  rw [himage, hinj.ncard_image, Set.ncard_coe_finset]
  rfl

/-- An account that has a row if it should have shares is counted if it should
have some. -/
theorem any_pos_iff {r : Option ActiveVaultPositionRow} {x : ℚ}
    (h : r.map ActiveVaultPositionRow.shares = if 0 < x then some x else none) :
    r.any (fun r => 0 < r.shares) = true ↔ 0 < x := by
  have hany : r.any (fun r => 0 < r.shares)
      = (r.map ActiveVaultPositionRow.shares).any fun y => 0 < y := by
    cases r <;> rfl
  rw [hany, h]
  by_cases hx : 0 < x <;> simp [hx]

/-! ## The index after any batches -/

theorem active_lookup_of_batches (batches : List (List ParsedEvent)) (p : PositionKey) :
    (batches.foldl (VaultHoldersIndexProjection.processParsedBatch ext)
        db).activeVaultPosition.lookup p
      = (activeLedger ext).apply p (db.activeVaultPosition.lookup p) batches.flatten := by
  induction batches generalizing db with
  | nil => rfl
  | cons batch batches ih =>
    have hbatch : (VaultHoldersIndexProjection.processParsedBatch ext db
        batch).activeVaultPosition.lookup p
        = (activeLedger ext).apply p (db.activeVaultPosition.lookup p) batch :=
      active_processParsedBatch
        (rfl : PgProjection.vaultHoldersIndex.processParsedBatch ext { db } batch = .ok _) p
    rw [List.foldl_cons, ih, hbatch, List.flatten_cons, Ledger.apply_append]

theorem countsHolders_of_batches (h : CountsHolders k db) (batches : List (List ParsedEvent)) :
    CountsHolders k (batches.foldl (VaultHoldersIndexProjection.processParsedBatch ext) db) := by
  induction batches generalizing db with
  | nil => exact h
  | cons batch batches ih => exact ih (countsHolders_processParsedBatch ext h batch)

/-- **The index of holders is exact after any batches exactly if nothing is
forgotten of any account**: from a vault without active positions, and with no
holders if it has a row. -/
theorem holdersExact_iff {ext : Externals} {k : VaultKey} {db : Db}
    (hempty : ∀ account, db.activeVaultPosition.lookup (k.positionOf account) = none)
    (hzero : ∀ row, db.vault.lookup k = some row → row.holderCount = 0)
    {batches : List (List ParsedEvent)} (hunsigned : ∀ e ∈ batches.flatten, e.Unsigned) :
    HoldersExact ext k batches.flatten
        (batches.foldl (VaultHoldersIndexProjection.processParsedBatch ext) db)
      ↔ ∀ account, NothingForgotten ext (k.positionOf account) batches.flatten := by
  have hrow : ∀ account, ((batches.foldl (VaultHoldersIndexProjection.processParsedBatch ext)
      db).activeVaultPosition.lookup (k.positionOf account)).map ActiveVaultPositionRow.shares
        = (if 0 < netShares ext (k.positionOf account) batches.flatten
            then some (netShares ext (k.positionOf account) batches.flatten) else none)
      ↔ NothingForgotten ext (k.positionOf account) batches.flatten := by
    intro account
    rw [active_lookup_of_batches, hempty, shares_eq_iff_nothingForgotten hunsigned]
  have hstart : CountsHolders k db := by
    intro row hlook
    rw [hzero row hlook]
    refine (countHolders_eq_ncard (P := fun _ => False) fun account => ?_).trans ?_ |>.symm
    · rw [hempty]
      simp
    · simp
  constructor
  · exact fun h account => (hrow account).mp (h.shares_eq account)
  · intro h
    have hshares := fun account => (hrow account).mpr (h account)
    refine ⟨hshares, fun row hlook => ?_⟩
    rw [countsHolders_of_batches hstart batches row hlook]
    refine countHolders_eq_ncard fun account => ?_
    exact any_pos_iff (hshares account)

/-! ## A redemption that arrives first -/

/-- Nothing is forgotten of an account that nothing happens to. -/
theorem nothingForgotten_of_no_events
    (h : ∀ e ∈ es, (activeLedger ext).concerns p e = false) : NothingForgotten ext p es := by
  have hzero : ∀ fs : List ParsedEvent, fs <:+ es → netShares ext p fs = 0 := by
    intro fs hfs
    rw [netShares_eq_total]
    refine (activeLedger ext).total_eq_zero fun e he hk => ?_
    rw [h e (hfs.mem he)] at hk
    exact absurd hk Bool.false_ne_true
  unfold NothingForgotten
  rw [hzero es List.suffix_rfl, if_neg (lt_irrefl 0)]
  refine ⟨fun after hafter => (hzero after hafter).le, fun e he => ?_⟩
  obtain ⟨hk, -⟩ := exists_apply_eq_step he
  obtain ⟨es', hlist⟩ := List.getLast?_eq_some_iff.mp he
  have hmem : e ∈ es.filter ((activeLedger ext).concerns p) := hlist ▸ by simp
  rw [h e (List.mem_of_mem_filter hmem)] at hk
  exact absurd hk Bool.false_ne_true

/-- Nothing is forgotten of the accounts of a vault with one deposit. -/
theorem nothingForgotten_deposited (account : String) :
    NothingForgotten .exact ((firstVault .exact).positionOf account) [depositedTen] := by
  by_cases haccount : "0xa" = account
  · subst haccount
    unfold NothingForgotten
    rw [if_pos (by decide +kernel)]
    intro before hbefore
    obtain rfl | ⟨before', rfl, hbefore'⟩ := List.prefix_cons_iff.mp hbefore
    · decide +kernel
    · rw [List.prefix_nil.mp hbefore']
      decide +kernel
  · refine nothingForgotten_of_no_events fun e he => decide_eq_false fun hkey => haccount ?_
    rw [List.mem_singleton.mp he] at hkey
    exact congrArg PositionKey.accountId (Option.some.inj hkey)

/-- The condition is met by a vault with one deposit. -/
theorem holdersExact_iff_deposited : HoldersExact .exact (firstVault .exact)
    ([[depositedTen]] : List (List ParsedEvent)).flatten
    ([[depositedTen]].foldl (VaultHoldersIndexProjection.processParsedBatch .exact) {}) := by
  refine (holdersExact_iff (fun _ => rfl) (fun _ h => ?_) ?_).mpr nothingForgotten_deposited
  · cases h
  · simpa using unsigned_depositedTen

/-- **A redemption that arrives before its deposit is forgotten**: the account
has a row with ten shares, although it should have none. -/
theorem holders_redeemed_first_not_exact :
    ¬ HoldersExact .exact (firstVault .exact) [redeemedTen, depositedTen]
      ([[redeemedTen], [depositedTen]].foldl
        (VaultHoldersIndexProjection.processParsedBatch .exact) {}) := by
  intro h
  have hshares := h.shares_eq "0xa"
  revert hshares
  decide +kernel
