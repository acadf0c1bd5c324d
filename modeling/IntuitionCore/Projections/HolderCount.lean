import IntuitionCore.Projections.HolderStatements

/-!
# Counts of holders that are missed

The counts that the transactions of `HolderStatements` write are ordered by the
locks, except for the first row of a vault. If the holders are counted in one
transaction before the positions are committed, and in the other one before the
row is, the first one counts too few and the second one counts for nothing. If
nobody counts again, the vault is left with a wrong number of holders; and this is
the only way to get one.

A vault agrees if the count its row will have is right, or will be made again.
Only a commit of the holders index can end that, and nothing can bring it back.
-/

open Result

/-! ## What is so in every state -/

open HolderCounts

/-- Of an open transaction of a shard: it writes and counts vaults of the shard
only, and a vault it is to count has a row, or an event that will give it one. -/
structure VaultStateTx.Ok (ext : Externals) (n i : ℕ) (t : VaultStateTx) : Prop where
  rows_owner : ∀ k, t.rows.lookup k ≠ none → owner ext n k = i
  refresh_owner : ∀ k ∈ t.toRefresh, owner ext n k = i
  events_refresh : ∀ e ∈ t.events, ∀ k, touchedVault ext e = some k → owner ext n k = i →
    k ∈ t.toRefresh
  refresh_row : ∀ k ∈ t.toRefresh, t.rows.lookup k ≠ none
    ∨ ∃ e ∈ t.events, touchedVault ext e = some k

/-- Of an open transaction of the holders index: it changes the positions of its
vaults only, and a row it has written has the holders it sees. -/
structure HoldersIndexTx.Ok (ext : Externals) (log : List ParsedEvent)
    (committed : Table PositionKey ActiveVaultPositionRow) (t : HoldersIndexTx) : Prop where
  events_touched : ∀ e ∈ t.events, ∀ k, touchedVault ext e = some k → k ∈ t.touched
  touched_log : ∀ k ∈ t.touched, ∃ e ∈ log, touchedVault ext e = some k
  refresh_touched : t.toRefresh ⊆ t.touched
  count_eq : ∀ k ∉ t.touched, countHolders t.positions k = countHolders committed k
  row : ∀ k row, t.rows.lookup k = some row →
    t.events = [] ∧ k ∈ t.touched ∧ row.holderCount = countHolders t.positions k

namespace HolderCounts

/-- What is so in every state, whether counts are missed or not. -/
structure Ok (ext : Externals) (n : ℕ) (log : List ParsedEvent) (s : HolderCounts) : Prop where
  vaultState : ∀ i t, s.vaultStateTx i = some t → i < n ∧ t.Ok ext n i
  holders : ∀ t, s.holdersTx = some t → t.Ok ext log s.kg.activeVaultPosition
  /-- A row is locked by one transaction. -/
  locked : ∀ k, s.holdersRow k ≠ none → ∀ i, s.vaultStateRow i k = none
  /-- A vault without a row is still to get one. -/
  due : ∀ k, (∃ e ∈ log, touchedVault ext e = some k) → s.nextCount ext n k = none →
    s.VaultStateDue ext n log k
  /-- A vault without events has no holders. -/
  untouched : ∀ k, (∀ e ∈ log, touchedVault ext e ≠ some k) →
    countHolders s.kg.activeVaultPosition k = 0

/-- The holders index has yet to commit events of a vault. -/
def HoldersDue (s : HolderCounts) (ext : Externals) (log : List ParsedEvent) (k : VaultKey) :
    Prop :=
  (∃ t, s.holdersTx = some t ∧ k ∈ t.touched) ∨ s.HoldersAhead ext log k

/-- The count of a vault is right, or will be made again. -/
def Agrees (s : HolderCounts) (ext : Externals) (n : ℕ) (log : List ParsedEvent) (k : VaultKey) :
    Prop :=
  (∀ c ∈ s.nextCount ext n k, c = countHolders s.kg.activeVaultPosition k)
    ∨ s.VaultStateDue ext n log k ∨ s.HoldersDue ext log k

/-- Nothing happens to a vault. -/
structure Quiet (ext : Externals) (n : ℕ) (log : List ParsedEvent) (s s' : HolderCounts)
    (k : VaultKey) : Prop where
  nextCount : s'.nextCount ext n k = s.nextCount ext n k
  holders : countHolders s'.kg.activeVaultPosition k = countHolders s.kg.activeVaultPosition k
  vaultStateDue : s'.VaultStateDue ext n log k ↔ s.VaultStateDue ext n log k
  holdersDue : s'.HoldersDue ext log k ↔ s.HoldersDue ext log k

variable {ext : Externals} {n : ℕ} {log : List ParsedEvent} {s s' : HolderCounts} {i : ℕ}
  {k : VaultKey} {e : ParsedEvent}

/-- A vault to which nothing happens agrees as it did. -/
theorem Quiet.agrees_iff (h : Quiet ext n log s s' k) :
    s'.Agrees ext n log k ↔ s.Agrees ext n log k := by
  unfold Agrees
  rw [h.nextCount, h.holders, h.vaultStateDue, h.holdersDue]

theorem vaultStateRow_set {t : Option VaultStateTx} {j : ℕ} :
    (s.setVaultStateTx i t).vaultStateRow j k
      = if j = i then t.bind fun t => t.rows.lookup k else s.vaultStateRow j k := by
  show (Function.update s.vaultStateTx i t j).bind _ = _
  rw [Function.update_apply]
  by_cases hj : j = i
  · rw [if_pos hj, if_pos hj]
  · rw [if_neg hj, if_neg hj]
    rfl

theorem nextCount_set {t : Option VaultStateTx} :
    (s.setVaultStateTx i t).nextCount ext n k
      = ((if owner ext n k = i then t.bind fun t => t.rows.lookup k
            else s.vaultStateRow (owner ext n k) k).or (s.kg.vaults.lookup k)).map
          VaultRow.holderCount := by
  unfold nextCount
  rw [vaultStateRow_set]
  rfl

theorem vaultStateRow_eq {t : VaultStateTx} (h : s.vaultStateTx i = some t) :
    s.vaultStateRow i k = t.rows.lookup k := by
  unfold vaultStateRow
  rw [h]
  rfl

/-- What is left of the log before a batch is the batch and what is left after
it. -/
theorem exists_mem_drop {α : Type} {P : α → Prop} (l : List α) (r size : ℕ) :
    (∃ e ∈ l.drop r, P e)
      ↔ (∃ e ∈ (l.drop r).take size, P e)
        ∨ ∃ e ∈ l.drop (r + ((l.drop r).take size).length), P e := by
  have hsplit : (l.drop r).take size ++ l.drop (r + ((l.drop r).take size).length) = l.drop r := by
    rw [← List.drop_drop]
    exact List.prefix_iff_eq_append.mp (List.take_prefix _ _)
  conv_lhs => rw [← hsplit]
  simp only [List.mem_append, or_and_right, exists_or]

/-! ## Which vaults an action leaves alone -/

/-- Reading a batch happens to no vault. -/
theorem quiet_beginVaultState (hext : ext.Lawful) {size : ℕ}
    (h : s.beginVaultState ext n log i size = some s') (k : VaultKey) :
    Quiet ext n log s s' k := by
  obtain ⟨htx, hi, batch, rfl, rfl⟩ := beginVaultState_eq_some h
  refine ⟨?_, rfl, ?_, Iff.rfl⟩
  · -- a transaction that begins has written no row
    have hrow : vaultStateRow (s.setVaultStateTx i (some
        { events := (log.drop (s.vaultStateRead i)).take size
          toRefresh := (((log.drop (s.vaultStateRead i)).take size).filterMap
            (VaultStateDualProjection.touchedShardVault ext i n)).toFinset })) (owner ext n k) k
        = s.vaultStateRow (owner ext n k) k := by
      rw [vaultStateRow_set]
      by_cases hk : owner ext n k = i
      · rw [if_pos hk, hk, vaultStateRow, htx]
        rfl
      · rw [if_neg hk]
    unfold nextCount
    rw [← hrow]
    rfl
  · unfold VaultStateDue setVaultStateTx
    by_cases hk : owner ext n k = i
    · simp only [hk, Function.update_self, htx, Option.some.injEq, exists_eq_left',
        List.mem_toFinset, List.mem_filterMap, touchedShardVault_eq_some hext hi, and_true,
        reduceCtorEq, false_and, exists_false, false_or]
      exact (exists_mem_drop _ _ _).symm
    · simp only [Function.update_of_ne hk]

/-- Reading a batch happens to no vault. -/
theorem quiet_beginHolders {size : ℕ} (h : s.beginHolders ext log size = some s')
    (k : VaultKey) : Quiet ext n log s s' k := by
  obtain ⟨htx, batch, touched, rfl, rfl, rfl⟩ := beginHolders_eq_some h
  refine ⟨rfl, rfl, Iff.rfl, ?_⟩
  unfold HoldersDue HoldersAhead
  simp only [htx, Option.some.injEq, exists_eq_left', List.mem_toFinset, List.mem_filterMap,
    reduceCtorEq, false_and, exists_false, false_or]
  exact (exists_mem_drop _ _ _).symm

/-- What the holders index writes happens to a vault when it is committed. -/
theorem quiet_holdersTx {t t' : HoldersIndexTx} (h : s.holdersTx = some t)
    (htouched : t'.touched = t.touched) (k : VaultKey) :
    Quiet ext n log s { s with holdersTx := some t' } k := by
  refine ⟨rfl, rfl, Iff.rfl, ?_⟩
  unfold HoldersDue HoldersAhead
  simp only [h, Option.some.injEq, exists_eq_left', htouched]

/-- **A commit of a shard happens to no vault**: it is what was to be
committed. -/
theorem quiet_commitVaultState (hok : s.Ok ext n log) (h : s.commitVaultState i = some s')
    (k : VaultKey) : Quiet ext n log s s' k := by
  obtain ⟨rows, htx, rfl⟩ := commitVaultState_eq_some h
  refine ⟨?_, rfl, ?_, Iff.rfl⟩
  · have hrow : vaultStateRow (s.setVaultStateTx i none) (owner ext n k) k
        = if owner ext n k = i then none else s.vaultStateRow (owner ext n k) k := by
      rw [vaultStateRow_set]
      rfl
    show ((vaultStateRow (s.setVaultStateTx i none) (owner ext n k) k).or
      ((rows ∪ s.kg.vaults).lookup k)).map _ = _
    unfold nextCount
    rw [hrow, Table.lookup_union]
    by_cases hk : owner ext n k = i
    · rw [if_pos hk, hk, vaultStateRow_eq htx, Option.none_or]
    · have hnone : rows.lookup k = none := by
        by_contra hne
        exact hk ((hok.vaultState i _ htx).2.rows_owner k hne)
      rw [if_neg hk, hnone, Option.none_or]
  · unfold VaultStateDue setVaultStateTx
    by_cases hk : owner ext n k = i
    · simp [hk, htx]
    · simp only [Function.update_of_ne hk]

/-- A commit of the holders index happens to the vaults of its batch only. -/
theorem quiet_commitHolders (hok : s.Ok ext n log) (h : s.commitHolders = some s')
    (k : VaultKey) (hk : ∀ t, s.holdersTx = some t → k ∉ t.touched) :
    Quiet ext n log s s' k := by
  obtain ⟨t, htx, -, -, rfl⟩ := commitHolders_eq_some h
  have ht := hok.holders t htx
  have hrow : t.rows.lookup k = none := by
    by_contra hne
    obtain ⟨row, hrow⟩ := Option.ne_none_iff_exists'.mp hne
    exact hk t htx (ht.row k row hrow).2.1
  refine ⟨?_, ht.count_eq k (hk t htx), Iff.rfl, ?_⟩
  · show ((s.vaultStateRow (owner ext n k) k).or ((t.rows ∪ s.kg.vaults).lookup k)).map _ = _
    rw [Table.lookup_union, hrow]
    rfl
  · unfold HoldersDue HoldersAhead
    simp [htx, hk t htx]

/-! ## Writing a vault -/

/-- An event gives its vault the row of the ledger. -/
theorem lookup_processEvent (hext : ext.Lawful) {tx tx' : Stores}
    (h : VaultStateDualProjection.processEvent ext i n true tx e = .ok tx')
    (hk : shardVault ext n i e = some k) :
    tx'.kg.vaults.lookup k = (vaultLedger ext).step (tx.kg.vaults.lookup k) e := by
  obtain ⟨hshard, hvault⟩ := Option.ite_none_right_eq_some.mp hk
  have hown : ownsShardVault ext i n k = true := by
    rw [ParsedEvent.isOfShard_eq hext, hvault] at hshard
    exact hshard
  have hconcerns : (vaultLedger ext).concerns k e = true := decide_eq_true hvault
  rw [VaultStateDualProjection.kgVaults_processEvent hext h, Table.lookup_record, hown, hconcerns]
  rfl

/-- An event that a shard has processed: what the row of a vault is. -/
theorem vaultStateEvent_row (hext : ext.Lawful) (h : s.vaultStateEvent ext n i = some s') :
    ∃ e events rows toRefresh, s.vaultStateTx i = some ⟨e :: events, rows, toRefresh⟩
      ∧ (∀ k, shardVault ext n i e = some k → s.holdersRow k = none)
      ∧ ∃ rows', (∀ k, rows'.lookup k = if shardVault ext n i e = some k then
            (vaultLedger ext).step ((rows.lookup k).or (s.kg.vaults.lookup k)) e
          else rows.lookup k)
        ∧ s' = s.setVaultStateTx i (some { events, rows := rows', toRefresh }) := by
  obtain ⟨e, events, rows, toRefresh, tx, htx, hfree, hprocess, rows', hrows', rfl⟩ :=
    vaultStateEvent_eq_some h
  refine ⟨e, events, rows, toRefresh, htx, hfree, rows', fun k => ?_, rfl⟩
  rw [hrows' k]
  by_cases hk : shardVault ext n i e = some k
  · rw [if_pos hk, if_pos hk, lookup_processEvent hext hprocess hk]
    exact congrArg (fun r => (vaultLedger ext).step r e) (Table.lookup_union _ _ _)
  · rw [if_neg hk, if_neg hk]

/-- **An event leaves the number of holders alone**, and gives a vault without a
row none. -/
theorem nextCount_vaultStateEvent (hext : ext.Lawful)
    (h : s.vaultStateEvent ext n i = some s') (k : VaultKey) :
    s'.nextCount ext n k = s.nextCount ext n k
      ∨ s.nextCount ext n k = none ∧ s'.nextCount ext n k = some 0 := by
  obtain ⟨e, events, rows, toRefresh, htx, -, rows', hrows', rfl⟩ := vaultStateEvent_row hext h
  rw [nextCount_set]
  unfold nextCount
  by_cases hown : owner ext n k = i
  · rw [if_pos hown, hown, vaultStateRow_eq htx, Option.bind_some, hrows' k]
    by_cases hk : shardVault ext n i e = some k
    · rw [if_pos hk]
      have hor : ((vaultLedger ext).step ((rows.lookup k).or (s.kg.vaults.lookup k)) e).or
            (s.kg.vaults.lookup k)
          = (vaultLedger ext).step ((rows.lookup k).or (s.kg.vaults.lookup k)) e := by
        cases hstep : (vaultLedger ext).step ((rows.lookup k).or (s.kg.vaults.lookup k)) e with
        | some row => rfl
        | none =>
          have hseen := not_imp_not.mp (vaultLedger_step_ne_none e) hstep
          exact (Option.or_eq_none_iff.mp hseen).2
      rw [hor]
      rcases holderCount_step ext ((rows.lookup k).or (s.kg.vaults.lookup k)) e with
        hcount | ⟨hnone, hcount⟩
      · exact .inl hcount
      · exact .inr ⟨Option.map_eq_none_iff.mpr hnone, hcount⟩
    · rw [if_neg hk]
      exact .inl rfl
  · rw [if_neg hown]
    exact .inl rfl

/-- Processing an event leaves what is to be counted alone. -/
theorem vaultStateDue_set {t t' : VaultStateTx} (htx : s.vaultStateTx i = some t)
    (ht : k ∈ t'.toRefresh ↔ k ∈ t.toRefresh) :
    (s.setVaultStateTx i (some t')).VaultStateDue ext n log k ↔ s.VaultStateDue ext n log k := by
  unfold VaultStateDue setVaultStateTx
  by_cases hk : owner ext n k = i
  · simp only [hk, Function.update_self, htx, Option.some.injEq, exists_eq_left', ht]
  · simp only [Function.update_of_ne hk]

/-- Where an event is processed, the vaults agree as they did. -/
theorem agrees_vaultStateEvent (hext : ext.Lawful) (hok : s.Ok ext n log)
    (h : s.vaultStateEvent ext n i = some s') (k : VaultKey) :
    s'.Agrees ext n log k ↔ s.Agrees ext n log k := by
  obtain ⟨e, events, rows, toRefresh, htx, -, rows', -, hs'⟩ := vaultStateEvent_row hext h
  have hdue : s'.VaultStateDue ext n log k ↔ s.VaultStateDue ext n log k := by
    rw [hs']
    exact vaultStateDue_set htx Iff.rfl
  rcases nextCount_vaultStateEvent hext h k with hcount | ⟨hnone, hcount⟩
  · have hquiet : Quiet ext n log s s' k := by
      refine ⟨hcount, ?_, hdue, ?_⟩ <;>
      · rw [hs']
        rfl
    exact hquiet.agrees_iff
  · -- a first row has no holders, nor has the vault, unless they are still to be counted
    refine iff_of_true ?_ (.inl fun c hc => ?_)
    · by_cases htouched : ∃ e ∈ log, touchedVault ext e = some k
      · exact .inr (.inl (hdue.mpr (hok.due k htouched hnone)))
      · refine .inl fun c hc => ?_
        rw [hcount] at hc
        obtain rfl := Option.some.inj hc
        have hzero := hok.untouched k fun e he hk => htouched ⟨e, he, hk⟩
        rw [hs']
        exact hzero.symm
    · rw [hnone] at hc
      cases hc

/-- **A shard that counts the holders of a vault has a row of it**, and the row
gets the count. -/
theorem vaultStateRefresh_row (hok : s.Ok ext n log) {k₀ : VaultKey}
    (h : s.vaultStateRefresh i k₀ = some s') :
    ∃ rows toRefresh rows', s.vaultStateTx i = some ⟨[], rows, toRefresh⟩ ∧ k₀ ∈ toRefresh
      ∧ rows.lookup k₀ ≠ none
      ∧ (∃ row, rows'.lookup k₀ = some row
        ∧ row.holderCount = countHolders s.kg.activeVaultPosition k₀)
      ∧ (∀ k, k ≠ k₀ → rows'.lookup k = rows.lookup k)
      ∧ s' = s.setVaultStateTx i
        (some { events := [], rows := rows', toRefresh := toRefresh.erase k₀ }) := by
  obtain ⟨rows, toRefresh, htx, hk₀, rows', hrows', rfl⟩ := vaultStateRefresh_eq_some h
  have hrow₀ : rows.lookup k₀ ≠ none := by
    rcases (hok.vaultState i _ htx).2.refresh_row k₀ hk₀ with hrow | ⟨e, he, -⟩
    · exact hrow
    · cases he
  refine ⟨rows, toRefresh, rows', htx, hk₀, hrow₀, ?_, fun k hk => ?_, rfl⟩
  · obtain ⟨row, hrow⟩ := Option.ne_none_iff_exists'.mp hrow₀
    have hseen : (s.seenByVaultState rows).vaults.lookup k₀ = some row := by
      show (rows ∪ s.kg.vaults).lookup k₀ = some row
      rw [Table.lookup_union, hrow]
      rfl
    have hcount := lookup_refreshKgHolderCount (k := k₀) (s.seenByVaultState rows)
    rw [hseen] at hcount
    obtain ⟨row', hrow', hcount⟩ := Option.map_eq_some_iff.mp hcount
    exact ⟨row', by rw [hrows', if_pos rfl, hrow'], hcount⟩
  · rw [hrows', if_neg hk]

/-- **A count makes the vault agree**, and happens to no other vault. -/
theorem agrees_vaultStateRefresh (hok : s.Ok ext n log) {k₀ : VaultKey}
    (h : s.vaultStateRefresh i k₀ = some s') (k : VaultKey) :
    s'.Agrees ext n log k ↔ s.Agrees ext n log k := by
  obtain ⟨rows, toRefresh, rows', htx, hk₀, -, ⟨row, hrow, hcount⟩, hrows', rfl⟩ :=
    vaultStateRefresh_row hok h
  by_cases hk : k = k₀
  · subst hk
    have hown := (hok.vaultState i _ htx).2.refresh_owner k hk₀
    refine iff_of_true (.inl fun c hc => ?_) (.inr (.inl (.inl ⟨_, hown ▸ htx, hk₀⟩)))
    rw [nextCount_set, if_pos hown, Option.bind_some, hrow] at hc
    exact (Option.some.inj hc).symm.trans hcount
  · have hquiet : Quiet ext n log s (s.setVaultStateTx i
        (some { events := [], rows := rows', toRefresh := toRefresh.erase k₀ })) k := by
      refine ⟨?_, rfl, vaultStateDue_set htx ?_, Iff.rfl⟩
      · rw [nextCount_set, nextCount, Option.bind_some, hrows' k hk]
        by_cases hown : owner ext n k = i
        · rw [if_pos hown, hown, vaultStateRow_eq htx]
        · rw [if_neg hown]
      · exact Finset.mem_erase.trans (and_iff_right hk)
    exact hquiet.agrees_iff

/-! ## The commit of the holders index -/

/-- **Which vaults agree after a commit of the holders index**: those whose row
its count found, and those for which it makes no difference that it did not. -/
theorem agrees_commitHolders (hok : s.Ok ext n log) (h : s.commitHolders = some s')
    {t : HoldersIndexTx} (htx : s.holdersTx = some t) :
    s'.Agrees ext n log k ↔ (t.rows.lookup k = none →
      s.VaultStateDue ext n log k ∨ s.HoldersAhead ext log k
        ∨ ∀ c ∈ s.nextCount ext n k, c = countHolders t.positions k) := by
  obtain ⟨t', htx', -, -, rfl⟩ := commitHolders_eq_some h
  obtain rfl := Option.some.inj (htx.symm.trans htx')
  have hnext : nextCount ext n { s with kg := s.seenByHolders t, holdersTx := none } k
      = ((s.vaultStateRow (owner ext n k) k).or
          ((t.rows.lookup k).or (s.kg.vaults.lookup k))).map VaultRow.holderCount := by
    show ((s.vaultStateRow (owner ext n k) k).or ((t.rows ∪ s.kg.vaults).lookup k)).map _ = _
    rw [Table.lookup_union]
  have hdue : HoldersDue { s with kg := s.seenByHolders t, holdersTx := none } ext log k
      ↔ s.HoldersAhead ext log k := by
    refine or_iff_right ?_
    rintro ⟨u, hu, -⟩
    cases hu
  unfold Agrees
  rw [hnext, hdue]
  cases hrow : t.rows.lookup k with
  | none =>
    rw [Option.none_or, eq_self, true_imp_iff]
    show (∀ c ∈ s.nextCount ext n k, c = countHolders t.positions k)
      ∨ s.VaultStateDue ext n log k ∨ _ ↔ _
    rw [or_rotate]
  | some row =>
    -- the row is locked, so no shard has written it
    have hlocked : s.vaultStateRow (owner ext n k) k = none := by
      refine hok.locked k ?_ _
      unfold holdersRow
      rw [htx, Option.bind_some, hrow]
      exact Option.some_ne_none row
    refine iff_of_true (.inl fun c hc => ?_) fun hnone => by cases hnone
    rw [hlocked] at hc
    obtain rfl := Option.some.inj hc
    exact ((hok.holders t htx).row k row hrow).2.2

/-! ## The invariant -/

/-- What a shard does keeps the invariant, if its own transaction does and the
rows it locks are free. -/
theorem Ok.of_vaultState (hok : s.Ok ext n log) {t : Option VaultStateTx}
    (htxs : s'.vaultStateTx = Function.update s.vaultStateTx i t)
    (hholders : s'.holdersTx = s.holdersTx)
    (hpositions : s'.kg.activeVaultPosition = s.kg.activeVaultPosition)
    (ht : ∀ u, t = some u → i < n ∧ u.Ok ext n i)
    (hlocked : ∀ u, t = some u → ∀ k, s.holdersRow k ≠ none → u.rows.lookup k = none)
    (hnext : ∀ k, s'.nextCount ext n k = none → s.nextCount ext n k = none)
    (hdue : ∀ k, s'.nextCount ext n k = none → s.VaultStateDue ext n log k →
      s'.VaultStateDue ext n log k) : s'.Ok ext n log where
  vaultState := by
    intro j u hu
    rw [htxs, Function.update_apply] at hu
    -- the other shards are where they were
    by_cases hj : j = i
    · rw [if_pos hj] at hu
      exact hj ▸ ht u hu
    · rw [if_neg hj] at hu
      exact hok.vaultState j u hu
  holders := by
    intro u hu
    rw [hpositions]
    exact hok.holders u (hholders ▸ hu)
  locked := by
    intro k hk j
    have hk' : s.holdersRow k ≠ none := by
      unfold holdersRow at hk ⊢
      rw [← hholders]
      exact hk
    unfold vaultStateRow
    rw [htxs, Function.update_apply]
    by_cases hj : j = i
    · rw [if_pos hj]
      cases htx : t with
      | none => rfl
      | some u => exact hlocked u htx k hk'
    · rw [if_neg hj]
      exact hok.locked k hk' j
  due := fun k hk hnone => hdue k hnone (hok.due k hk (hnext k hnone))
  untouched := by
    intro k hk
    rw [hpositions]
    exact hok.untouched k hk

/-- What the holders index does keeps the invariant, if its own transaction does
and the rows it locks are free. -/
theorem Ok.of_holders (hok : s.Ok ext n log) (htxs : s'.vaultStateTx = s.vaultStateTx)
    (hread : s'.vaultStateRead = s.vaultStateRead)
    (ht : ∀ u, s'.holdersTx = some u → u.Ok ext log s'.kg.activeVaultPosition)
    (hlocked : ∀ k, s'.holdersRow k ≠ none →
      s.holdersRow k ≠ none ∨ ∀ i < n, s.vaultStateRow i k = none)
    (hnext : ∀ k, s'.nextCount ext n k = none → s.nextCount ext n k = none)
    (huntouched : ∀ k, (∀ e ∈ log, touchedVault ext e ≠ some k) →
      countHolders s'.kg.activeVaultPosition k = countHolders s.kg.activeVaultPosition k) :
    s'.Ok ext n log where
  vaultState := by
    rw [htxs]
    exact hok.vaultState
  holders := ht
  locked := by
    intro k hk i
    have hrow : s'.vaultStateRow i k = s.vaultStateRow i k := by
      unfold vaultStateRow
      rw [htxs]
    rw [hrow]
    -- a row that is newly locked was free
    rcases hlocked k hk with hk' | hfree
    · exact hok.locked k hk' i
    · cases htx : s.vaultStateTx i with
      | none =>
        unfold vaultStateRow
        rw [htx]
        rfl
      | some t => exact hfree i (hok.vaultState i t htx).1
  due := by
    intro k hk hnone
    unfold VaultStateDue
    rw [htxs, hread]
    exact hok.due k hk (hnext k hnone)
  untouched := fun k hk => (huntouched k hk).trans (hok.untouched k hk)

theorem ok_beginVaultState (hext : ext.Lawful) (hok : s.Ok ext n log) {size : ℕ}
    (h : s.beginVaultState ext n log i size = some s') : s'.Ok ext n log := by
  have hquiet := quiet_beginVaultState hext h
  obtain ⟨-, hi, batch, -, rfl⟩ := beginVaultState_eq_some h
  refine hok.of_vaultState rfl rfl rfl ?_ ?_ ?_ ?_
  · rintro u ⟨⟩
    refine ⟨hi, fun k hk => absurd rfl hk, fun k hk => ?_, fun e he k hk hown => ?_,
      fun k hk => .inr ?_⟩
    · obtain ⟨e, -, he⟩ := List.mem_filterMap.mp (List.mem_toFinset.mp hk)
      exact ((touchedShardVault_eq_some hext hi).mp he).2
    · exact List.mem_toFinset.mpr (List.mem_filterMap.mpr
        ⟨e, he, (touchedShardVault_eq_some hext hi).mpr ⟨hk, hown⟩⟩)
    · obtain ⟨e, hmem, he⟩ := List.mem_filterMap.mp (List.mem_toFinset.mp hk)
      exact ⟨e, hmem, ((touchedShardVault_eq_some hext hi).mp he).1⟩
  · rintro u ⟨⟩ k -
    rfl
  · exact fun k hk => (hquiet k).nextCount ▸ hk
  · exact fun k _ hdue => (hquiet k).vaultStateDue.mpr hdue

theorem ok_vaultStateEvent (hext : ext.Lawful) (hok : s.Ok ext n log)
    (h : s.vaultStateEvent ext n i = some s') : s'.Ok ext n log := by
  have hcount := nextCount_vaultStateEvent hext h
  obtain ⟨e, events, rows, toRefresh, htx, hfree, rows', hrows', rfl⟩ :=
    vaultStateEvent_row hext h
  obtain ⟨hi, htxok⟩ := hok.vaultState i _ htx
  refine hok.of_vaultState rfl rfl rfl ?_ ?_ (fun k hk => ?_) fun k _ hdue => ?_
  · rintro u ⟨⟩
    refine ⟨hi, fun k hk => ?_, htxok.refresh_owner, fun e' he' =>
      htxok.events_refresh e' (List.mem_cons_of_mem e he'), fun k hk => ?_⟩
    · rw [hrows'] at hk
      by_cases hshard : shardVault ext n i e = some k
      · exact ((shardVault_eq_some hext hi).mp hshard).2
      · rw [if_neg hshard] at hk
        exact htxok.rows_owner k hk
    · -- the row is there, or the event that gives it was this one, or is still to come
      show rows'.lookup k ≠ none ∨ _
      rw [hrows']
      rcases htxok.refresh_row k hk with hrow | ⟨e', he', htouched⟩
      · refine .inl ?_
        by_cases hshard : shardVault ext n i e = some k
        · rw [if_pos hshard]
          refine vaultLedger_step_ne_none e fun hnone => hrow ?_
          exact (Option.or_eq_none_iff.mp hnone).1
        · rw [if_neg hshard]
          exact hrow
      · rcases List.mem_cons.mp he' with rfl | he'
        · obtain ⟨hvault, hstep⟩ := step_ne_none_of_touched htouched
            ((rows.lookup k).or (s.kg.vaults.lookup k))
          rw [if_pos ((shardVault_eq_some hext hi).mpr ⟨hvault, htxok.refresh_owner k hk⟩)]
          exact .inl hstep
        · exact .inr ⟨e', he', htouched⟩
  · rintro u ⟨⟩ k hk
    show rows'.lookup k = none
    rw [hrows', if_neg fun hshard => hk (hfree k hshard)]
    have hlocked := hok.locked k hk i
    rwa [vaultStateRow_eq htx] at hlocked
  · rcases hcount k with hcount | ⟨hnone, -⟩
    · exact hcount ▸ hk
    · exact hnone
  · refine (vaultStateDue_set htx ?_).mpr hdue
    exact Iff.rfl

theorem ok_vaultStateRefresh (hok : s.Ok ext n log) {k₀ : VaultKey}
    (h : s.vaultStateRefresh i k₀ = some s') : s'.Ok ext n log := by
  obtain ⟨rows, toRefresh, rows', htx, hk₀, hrow₀, ⟨row, hrow, -⟩, hrows', rfl⟩ :=
    vaultStateRefresh_row hok h
  obtain ⟨hi, htxok⟩ := hok.vaultState i _ htx
  -- counting gives no vault a row, and takes none away
  have hrows : ∀ k, rows'.lookup k = none ↔ rows.lookup k = none := by
    intro k
    by_cases hk : k = k₀
    · subst hk
      exact iff_of_false (hrow ▸ Option.some_ne_none row) hrow₀
    · rw [hrows' k hk]
  have hnext : ∀ k, nextCount ext n (s.setVaultStateTx i
      (some { events := [], rows := rows', toRefresh := toRefresh.erase k₀ })) k = none ↔
        s.nextCount ext n k = none := by
    intro k
    rw [nextCount_set, nextCount, Option.map_eq_none_iff, Option.map_eq_none_iff,
      Option.or_eq_none_iff, Option.or_eq_none_iff, Option.bind_some]
    by_cases hown : owner ext n k = i
    · rw [if_pos hown, hown, vaultStateRow_eq htx, hrows]
    · rw [if_neg hown]
  refine hok.of_vaultState rfl rfl rfl ?_ ?_ (fun k => (hnext k).mp) fun k hnone hdue => ?_
  · rintro u ⟨⟩
    refine ⟨hi, fun k hk => htxok.rows_owner k ((hrows k).not.mp hk), fun k hk =>
      htxok.refresh_owner k (Finset.mem_of_mem_erase hk), fun e he => absurd he List.not_mem_nil,
      fun k hk => .inl ((hrows k).not.mpr ?_)⟩
    exact (htxok.refresh_row k (Finset.mem_of_mem_erase hk)).resolve_right
      fun ⟨e, he, _⟩ => List.not_mem_nil he
  · rintro u ⟨⟩ k hk
    have hlocked := hok.locked k hk i
    rw [vaultStateRow_eq htx] at hlocked
    exact (hrows k).mpr hlocked
  · -- the vault that was counted has a row
    refine (vaultStateDue_set htx (Finset.mem_erase.trans (and_iff_right ?_))).mpr hdue
    rintro rfl
    rw [nextCount_set, if_pos (htxok.refresh_owner _ hk₀), Option.bind_some,
      Option.map_eq_none_iff, Option.or_eq_none_iff, hrow] at hnone
    cases hnone.1

theorem ok_commitVaultState (hok : s.Ok ext n log) (h : s.commitVaultState i = some s') :
    s'.Ok ext n log := by
  have hquiet := quiet_commitVaultState hok h
  obtain ⟨rows, htx, rfl⟩ := commitVaultState_eq_some h
  refine hok.of_vaultState (t := none) rfl rfl rfl ?_ ?_ ?_ ?_
  · rintro u ⟨⟩
  · rintro u ⟨⟩
  · exact fun k hk => (hquiet k).nextCount ▸ hk
  · exact fun k _ hdue => (hquiet k).vaultStateDue.mpr hdue

theorem ok_beginHolders (hok : s.Ok ext n log) {size : ℕ}
    (h : s.beginHolders ext log size = some s') : s'.Ok ext n log := by
  obtain ⟨-, batch, touched, rfl, rfl, rfl⟩ := beginHolders_eq_some h
  refine hok.of_holders rfl rfl ?_ (fun k hk => absurd rfl hk) (fun k hk => hk) fun k _ => rfl
  rintro u ⟨⟩
  refine ⟨fun e he k hk => ?_, fun k hk => ?_, subset_rfl, fun k _ => rfl, fun k row hrow => ?_⟩
  · exact List.mem_toFinset.mpr (List.mem_filterMap.mpr ⟨e, he, hk⟩)
  · obtain ⟨e, he, hk⟩ := List.mem_filterMap.mp (List.mem_toFinset.mp hk)
    exact ⟨e, List.mem_of_mem_drop (List.mem_of_mem_take he), hk⟩
  · cases hrow

theorem ok_holdersEvent (hok : s.Ok ext n log) (h : s.holdersEvent ext = some s') :
    s'.Ok ext n log := by
  obtain ⟨t, e, events, htx, hevents, rfl⟩ := holdersEvent_eq_some h
  have htxok := hok.holders t htx
  refine hok.of_holders rfl rfl ?_ (fun k hk => .inl ?_) (fun k hk => hk) fun k _ => rfl
  · rintro u ⟨⟩
    refine ⟨fun e' he' => htxok.events_touched e' (hevents ▸ List.mem_cons_of_mem e he'),
      htxok.touched_log, htxok.refresh_touched, fun k hk => ?_, fun k row hrow => ?_⟩
    · refine (countHolders_record _ fun htouched => hk ?_).trans (htxok.count_eq k hk)
      exact htxok.events_touched e (hevents ▸ List.mem_cons_self) k htouched
    · -- no row is written before the last event is processed
      have hnil := (htxok.row k row hrow).1
      rw [hevents] at hnil
      cases hnil
  · unfold holdersRow at hk ⊢
    rw [htx]
    exact hk

theorem ok_holdersRefresh (hok : s.Ok ext n log) {k₀ : VaultKey}
    (h : s.holdersRefresh n k₀ = some s') : s'.Ok ext n log := by
  obtain ⟨t, htx, hevents, hk₀, rows, rfl, hrows⟩ := holdersRefresh_eq_some h
  have htxok := hok.holders t htx
  refine hok.of_holders rfl rfl ?_ (fun k hk => ?_) (fun k hk => hk) fun k _ => rfl
  · rintro u ⟨⟩
    refine ⟨htxok.events_touched, htxok.touched_log,
      (Finset.erase_subset _ _).trans htxok.refresh_touched, htxok.count_eq,
      fun k row hrow => ?_⟩
    rcases hrows with rfl | ⟨-, hrows⟩
    · exact htxok.row k row hrow
    · change rows.lookup k = some row at hrow
      rw [hrows] at hrow
      by_cases hk : k = k₀
      · -- the count that was written is the one the transaction sees
        subst hk
        refine ⟨hevents, htxok.refresh_touched hk₀, ?_⟩
        have hcount := lookup_refreshKgHolderCount (k := k) (s.seenByHolders t)
        rw [if_pos rfl] at hrow
        rw [hrow] at hcount
        obtain ⟨row', -, hcount⟩ := Option.map_eq_some_iff.mp hcount.symm
        exact hcount.symm
      · rw [if_neg hk] at hrow
        exact htxok.row k row hrow
  · have hrow : holdersRow { s with
        holdersTx := some { t with rows, toRefresh := t.toRefresh.erase k₀ } } k
          = rows.lookup k := rfl
    have hrow' : s.holdersRow k = t.rows.lookup k := by
      unfold holdersRow
      rw [htx]
      rfl
    rw [hrow] at hk
    rw [hrow']
    rcases hrows with rfl | ⟨hfree, hrows⟩
    · exact .inl hk
    · rw [hrows] at hk
      by_cases hkey : k = k₀
      · -- the row that is counted now was locked by nobody
        subst hkey
        exact .inr hfree
      · rw [if_neg hkey] at hk
        exact .inl hk

theorem ok_commitHolders (hok : s.Ok ext n log) (h : s.commitHolders = some s') :
    s'.Ok ext n log := by
  obtain ⟨t, htx, -, -, rfl⟩ := commitHolders_eq_some h
  have htxok := hok.holders t htx
  refine hok.of_holders rfl rfl ?_ (fun k hk => absurd rfl hk) (fun k hk => ?_) fun k hk => ?_
  · rintro u ⟨⟩
  · change ((s.vaultStateRow (owner ext n k) k).or
      ((t.rows ∪ s.kg.vaults).lookup k)).map VaultRow.holderCount = none at hk
    rw [Table.lookup_union, Option.map_eq_none_iff, Option.or_eq_none_iff,
      Option.or_eq_none_iff] at hk
    unfold nextCount
    rw [hk.1, hk.2.2]
    rfl
  · refine htxok.count_eq k fun htouched => ?_
    obtain ⟨e, he, hek⟩ := htxok.touched_log k htouched
    exact hk e he hek

/-- **The invariant is preserved by every action.** -/
theorem ok_step (hext : ext.Lawful) (s : HolderCounts) (a : Action) (s' : HolderCounts)
    (hok : s.Ok ext n log) (h : s.step ext n log a = some s') : s'.Ok ext n log := by
  cases a with
  | beginVaultState i size => exact ok_beginVaultState hext hok h
  | vaultStateEvent i => exact ok_vaultStateEvent hext hok h
  | vaultStateRefresh i k => exact ok_vaultStateRefresh hok h
  | commitVaultState i => exact ok_commitVaultState hok h
  | beginHolders size => exact ok_beginHolders hok h
  | holdersEvent => exact ok_holdersEvent hok h
  | holdersRefresh k => exact ok_holdersRefresh hok h
  | commitHolders => exact ok_commitHolders hok h

theorem ok_init : Ok ext n log {} where
  vaultState := fun i t ht => by cases ht
  holders := fun t ht => by cases ht
  locked := fun k hk => absurd rfl hk
  due := fun k ⟨e, he, hk⟩ _ => .inr ⟨e, he, hk⟩
  untouched := fun k _ => rfl

/-! ## What an action does to the counts -/

/-- Only a commit of the holders index matters to whether a vault agrees. -/
theorem agrees_step (hext : ext.Lawful) (hok : s.Ok ext n log) {a : Action}
    (h : s.step ext n log a = some s') (hne : a ≠ .commitHolders) (k : VaultKey) :
    s'.Agrees ext n log k ↔ s.Agrees ext n log k := by
  cases a with
  | beginVaultState i size => exact (quiet_beginVaultState hext h k).agrees_iff
  | vaultStateEvent i => exact agrees_vaultStateEvent hext hok h k
  | vaultStateRefresh i k₀ => exact agrees_vaultStateRefresh hok h k
  | commitVaultState i => exact (quiet_commitVaultState hok h k).agrees_iff
  | beginHolders size => exact (quiet_beginHolders h k).agrees_iff
  | holdersEvent =>
    obtain ⟨t, e, events, htx, -, rfl⟩ := holdersEvent_eq_some h
    refine (quiet_holdersTx htx ?_ k).agrees_iff
    rfl
  | holdersRefresh k₀ =>
    obtain ⟨t, htx, -, -, rows, rfl, -⟩ := holdersRefresh_eq_some h
    refine (quiet_holdersTx htx ?_ k).agrees_iff
    rfl
  | commitHolders => exact absurd rfl hne

/-- Every vault agrees. -/
def AllAgree (ext : Externals) (n : ℕ) (log : List ParsedEvent) (s : HolderCounts) : Prop :=
  ∀ k, s.Agrees ext n log k

/-- A vault of the batch of an open transaction agrees, since it is still to be
counted. -/
theorem agrees_of_touched {t : HoldersIndexTx} (htx : s.holdersTx = some t)
    (hk : k ∈ t.touched) : s.Agrees ext n log k :=
  .inr (.inr (.inl ⟨t, htx, hk⟩))

/-- **An action leaves every vault in agreement exactly if it misses no count.** -/
theorem allAgree_step_iff (hext : ext.Lawful) (s : HolderCounts) (a : Action) (s' : HolderCounts)
    (hok : s.Ok ext n log) (hall : s.AllAgree ext n log) (h : s.step ext n log a = some s') :
    s'.AllAgree ext n log ↔ s.NotMissed ext n log a := by
  by_cases ha : a = .commitHolders
  · subst ha
    constructor
    · exact fun hall' t htx k _ => (agrees_commitHolders hok h htx).mp (hall' k)
    · intro hmissed k
      obtain ⟨t, htx, -⟩ := commitHolders_eq_some h
      by_cases hk : k ∈ t.touched
      · exact (agrees_commitHolders hok h htx).mpr (hmissed t htx k hk)
      · refine (quiet_commitHolders hok h k fun u hu => ?_).agrees_iff.mpr (hall k)
        obtain rfl := Option.some.inj (htx.symm.trans hu)
        exact hk
  · have hmissed : s.NotMissed ext n log a := by
      cases a with
      | commitHolders => exact absurd rfl ha
      | _ => trivial
    exact iff_of_true (fun k => (agrees_step hext hok h ha k).mpr (hall k)) hmissed

/-- **A count that was missed is not made up for.** -/
theorem allAgree_of_step (hext : ext.Lawful) (s : HolderCounts) (a : Action) (s' : HolderCounts)
    (hok : s.Ok ext n log) (h : s.step ext n log a = some s') (hall : s'.AllAgree ext n log) :
    s.AllAgree ext n log := by
  intro k
  by_cases ha : a = .commitHolders
  · subst ha
    obtain ⟨t, htx, -⟩ := commitHolders_eq_some h
    by_cases hk : k ∈ t.touched
    · exact agrees_of_touched htx hk
    · refine (quiet_commitHolders hok h k fun u hu => ?_).agrees_iff.mp (hall k)
      obtain rfl := Option.some.inj (htx.symm.trans hu)
      exact hk
  · exact (agrees_step hext hok h ha k).mp (hall k)

/-- When both workers have processed the log, nothing is to be counted again. -/
theorem Done.allAgree_iff (hn : 0 < n) (h : s.Done n log) :
    s.AllAgree ext n log ↔ s.CountsAgree := by
  refine forall_congr' fun k => ?_
  obtain ⟨hread, htx⟩ := h.1 (owner ext n k) (Shard.shardOfVault_lt hn _ _)
  have hdue : ¬ s.VaultStateDue ext n log k := by
    unfold VaultStateDue
    simp [htx, List.drop_eq_nil_of_le hread]
  have hholders : ¬ s.HoldersDue ext log k := by
    unfold HoldersDue HoldersAhead
    simp [h.2.2, List.drop_eq_nil_of_le h.2.1]
  have hnext : s.nextCount ext n k = (s.kg.vaults.lookup k).map VaultRow.holderCount := by
    unfold nextCount vaultStateRow
    rw [htx]
    rfl
  unfold Agrees
  rw [hnext, or_iff_left (not_or.mpr ⟨hdue, hholders⟩)]
  constructor
  · exact fun hc row hrow => hc _ (Option.mem_map_of_mem _ hrow)
  · intro hrow c hc
    obtain ⟨row, hlookup, rfl⟩ := Option.map_eq_some_iff.mp hc
    exact hrow row hlookup

end HolderCounts

/-- **The numbers of holders are right in the end if and only if no count was
missed**: in every interleaving of the statements, with every batching of the
log. -/
theorem holderCounts_agree_iff {ext : Externals} {n : ℕ} (hext : ext.Lawful) (hn : 0 < n)
    (log : List ParsedEvent) (schedule : List Action) (s : HolderCounts)
    (hrun : Run.follow (step ext n log) {} schedule = some s) (hdone : s.Done n log) :
    s.CountsAgree ↔ Run.EachStep (step ext n log) (NotMissed ext n log) {} schedule := by
  have hinit : AllAgree ext n log {} := fun k => .inl fun c hc => by cases hc
  have hend : s.AllAgree ext n log ↔ s.CountsAgree := hdone.allAgree_iff hn
  rw [← hend, ← Run.always_iff_end (ok_step hext) (allAgree_of_step hext) ok_init hrun]
  exact Run.always_iff_eachStep (ok_step hext) (allAgree_step_iff hext) ok_init hinit schedule

namespace HolderCounts

instance (s : HolderCounts) (n : ℕ) (log : List ParsedEvent) : Decidable (s.Done n log) :=
  inferInstanceAs (Decidable ((∀ i < n, _ ∧ s.vaultStateTx i = none) ∧ _ ∧ s.holdersTx = none))

/-- One deposit. -/
def depositLog : List ParsedEvent := [ParsedEvent.parseOrUnknown firstDeposit]

/-- The vault is committed, and then its holders are counted. -/
def countedAfter : List Action :=
  [.beginVaultState 0 1, .vaultStateEvent 0, .vaultStateRefresh 0 (firstVault .exact),
    .commitVaultState 0, .beginHolders 1, .holdersEvent, .holdersRefresh (firstVault .exact)]

theorem holderCounts_agree_iff_countedAfter :
    ∃ s, Run.follow (step .exact 1 depositLog) {} (countedAfter ++ [.commitHolders]) = some s
      ∧ s.Done 1 depositLog ∧ s.CountsAgree := by
  have hrun : (Run.follow (step .exact 1 depositLog) {} (countedAfter ++ [.commitHolders])).map
      (fun s => decide (s.Done 1 depositLog)) = some true := by
    decide +kernel
  obtain ⟨s, hs, hdone⟩ := Option.map_eq_some_iff.mp hrun
  have hcounted : (Run.follow (step .exact 1 depositLog) {} countedAfter).map
      (fun s => s.holdersTx.map fun t => decide (∀ k ∈ t.touched, t.rows.lookup k ≠ none))
        = some (some true) := by
    decide +kernel
  refine ⟨s, hs, of_decide_eq_true hdone, (holderCounts_agree_iff Externals.exact_lawful
    Nat.one_pos depositLog _ s hs (of_decide_eq_true hdone)).mpr (Run.EachStep.append ?_ ?_)⟩
  · exact fun _ _ => ⟨trivial, fun _ _ => ⟨trivial, fun _ _ => ⟨trivial, fun _ _ => ⟨trivial,
      fun _ _ => ⟨trivial, fun _ _ => ⟨trivial, fun _ _ => ⟨trivial, trivial⟩⟩⟩⟩⟩⟩⟩
  · intro s' hs'
    rw [hs', Option.map_some, Option.some.injEq] at hcounted
    obtain ⟨t, htx, ht⟩ := Option.map_eq_some_iff.mp hcounted
    refine fun _ _ => ⟨fun u hu k hk hnone => ?_, trivial⟩
    obtain rfl := Option.some.inj (htx.symm.trans hu)
    exact absurd hnone (of_decide_eq_true ht k hk)

/-- The shard has counted, and not committed, when the other worker finds no row
to count the holders of. -/
def countedBefore : List Action :=
  [.beginVaultState 0 1, .vaultStateEvent 0, .vaultStateRefresh 0 (firstVault .exact),
    .beginHolders 1, .holdersEvent, .holdersRefresh (firstVault .exact), .commitHolders,
    .commitVaultState 0]

/-- **A vault can be left with a wrong number of holders**: it has one, and its
row says that it has none. -/
theorem countedBefore_disagrees :
    ¬ ∀ (ext : Externals), ext.Lawful → ∀ n, 0 < n → ∀ log schedule s,
      Run.follow (step ext n log) {} schedule = some s → s.Done n log → s.CountsAgree := by
  intro h
  have hrun : (Run.follow (step .exact 1 depositLog) {} countedBefore).map
      (fun s => (decide (s.Done 1 depositLog),
        (s.kg.vaults.lookup (firstVault .exact)).map VaultRow.holderCount,
        countHolders s.kg.activeVaultPosition (firstVault .exact)))
      = some (true, some 0, 1) := by
    decide +kernel
  obtain ⟨s, hs, hend⟩ := Option.map_eq_some_iff.mp hrun
  rw [Prod.mk.injEq, Prod.mk.injEq] at hend
  obtain ⟨hdone, hrow, hcount⟩ := hend
  obtain ⟨row, hlookup, hrow⟩ := Option.map_eq_some_iff.mp hrow
  have hagree := h .exact Externals.exact_lawful 1 Nat.one_pos depositLog countedBefore s hs
    (of_decide_eq_true hdone) _ row hlookup
  rw [hrow, hcount] at hagree
  exact absurd hagree (by decide)

end HolderCounts
