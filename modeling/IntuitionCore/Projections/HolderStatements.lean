import IntuitionCore.Projections.Copies

/-!
# Counting holders from two transactions

Two workers write the number of holders of a vault in the KG database. One
maintains the vaults, in shards, and the other one the positions in them. Either
counts the holders of the vaults of its batch at the end of its transaction.

A statement sees what was committed before it began, and what its own transaction
wrote. A row that was written by an open transaction is locked: a statement of
another one that would write it waits. But a row that an open transaction has
inserted is no row at all to the others, so an `UPDATE` that would write it does
not wait; it writes nothing.

A statement that has waited goes on as one that begins when the row is released:
what it reads of other tables, nobody else writes.

What is modelled is the schema `market`, less its events, and runs in which no
statement fails. An event of the log is what the workers read it as.
-/

open Result

/-- An open transaction of a shard of `vault_state:dual`. -/
structure VaultStateTx where
  /-- The events of the batch that are still to be processed. -/
  events : List ParsedEvent
  /-- The rows of `market.vaults` that were written, and are locked. -/
  rows : Table VaultKey VaultRow := ∅
  /-- The vaults whose holders are still to be counted. -/
  toRefresh : Finset VaultKey

/-- An open transaction of `vault_holders_index:dual`. -/
structure HoldersIndexTx where
  /-- The events of the batch that are still to be processed. -/
  events : List ParsedEvent
  /-- What it sees of `market.active_vault_position`, which nobody else writes. -/
  positions : Table PositionKey ActiveVaultPositionRow
  /-- The rows of `market.vaults` that were written, and are locked. -/
  rows : Table VaultKey VaultRow := ∅
  /-- The vaults of the batch. -/
  touched : Finset VaultKey
  /-- The vaults whose holders are still to be counted. -/
  toRefresh : Finset VaultKey

/-- The KG database, and the workers on it. -/
structure HolderCounts where
  /-- What is committed. -/
  kg : KgDb := {}
  /-- How many events of the log each shard has read. -/
  vaultStateRead : ℕ → ℕ := fun _ => 0
  vaultStateTx : ℕ → Option VaultStateTx := fun _ => none
  /-- How many events of the log the holders index has read. -/
  holdersRead : ℕ := 0
  holdersTx : Option HoldersIndexTx := none

namespace HolderCounts

/-- A statement of a transaction, its begin, or its commit. -/
inductive Action where
  | beginVaultState (i size : ℕ)
  | vaultStateEvent (i : ℕ)
  | vaultStateRefresh (i : ℕ) (k : VaultKey)
  | commitVaultState (i : ℕ)
  | beginHolders (size : ℕ)
  | holdersEvent
  | holdersRefresh (k : VaultKey)
  | commitHolders

variable (ext : Externals) (n : ℕ) (log : List ParsedEvent)

/-- The vault an event is about, in the shard of the vault. -/
def shardVault (i : ℕ) (e : ParsedEvent) : Option VaultKey :=
  if e.isOfShard ext i n then vaultOf ext e else none

/-- The row of a vault that a shard has written and not committed. -/
def vaultStateRow (s : HolderCounts) (i : ℕ) (k : VaultKey) : Option VaultRow :=
  (s.vaultStateTx i).bind fun t => t.rows.lookup k

/-- The row of a vault that the holders index has written and not committed. -/
def holdersRow (s : HolderCounts) (k : VaultKey) : Option VaultRow :=
  s.holdersTx.bind fun t => t.rows.lookup k

/-- What a shard sees that has written rows. -/
def seenByVaultState (s : HolderCounts) (rows : Table VaultKey VaultRow) : KgDb :=
  { s.kg with vaults := rows ∪ s.kg.vaults }

/-- What the holders index sees in a transaction. -/
def seenByHolders (s : HolderCounts) (t : HoldersIndexTx) : KgDb :=
  { s.kg with vaults := t.rows ∪ s.kg.vaults, activeVaultPosition := t.positions }

def setVaultStateTx (s : HolderCounts) (i : ℕ) (t : Option VaultStateTx) : HolderCounts :=
  { s with vaultStateTx := Function.update s.vaultStateTx i t }

/-! ## Vaults -/

/-- A shard reads a batch and begins. -/
def beginVaultState (s : HolderCounts) (i size : ℕ) : Option HolderCounts :=
  match s.vaultStateTx i with
  | none =>
    if i < n then
      let batch := (log.drop (s.vaultStateRead i)).take size
      let touched := batch.filterMap (VaultStateDualProjection.touchedShardVault ext i n)
      some { s.setVaultStateTx i (some { events := batch, toRefresh := touched.toFinset }) with
        vaultStateRead :=
          Function.update s.vaultStateRead i (s.vaultStateRead i + batch.length) }
    else none
  | some _ => none

/-- The next event of a batch is processed. It waits for the row of its vault. -/
def vaultStateEvent (s : HolderCounts) (i : ℕ) : Option HolderCounts :=
  match s.vaultStateTx i with
  | some ⟨e :: events, rows, toRefresh⟩ =>
    if ∀ k ∈ shardVault ext n i e, s.holdersRow k = none then
      match VaultStateDualProjection.processEvent ext i n true { kg := s.seenByVaultState rows } e
      with
      | .ok tx =>
        let rows := match shardVault ext n i e with
          | some k => rows.alter k fun _ => tx.kg.vaults.lookup k
          | none => rows
        some (s.setVaultStateTx i (some { events, rows, toRefresh }))
      | .error _ => none
    else none
  | _ => none

/-- The holders of a vault are counted, whose row the transaction has locked. -/
def vaultStateRefresh (s : HolderCounts) (i : ℕ) (k : VaultKey) : Option HolderCounts :=
  match s.vaultStateTx i with
  | some ⟨[], rows, toRefresh⟩ =>
    if k ∈ toRefresh then
      let kg := KgMarketRepo.refreshKgHolderCount (s.seenByVaultState rows) k.termId k.curveId
      some (s.setVaultStateTx i (some
        { events := []
          rows := rows.alter k fun _ => kg.vaults.lookup k
          toRefresh := toRefresh.erase k }))
    else none
  | _ => none

def commitVaultState (s : HolderCounts) (i : ℕ) : Option HolderCounts :=
  match s.vaultStateTx i with
  | some ⟨[], rows, toRefresh⟩ =>
    if toRefresh = ∅ then
      some { s.setVaultStateTx i none with kg := s.seenByVaultState rows }
    else none
  | _ => none

/-! ## Positions -/

/-- The holders index reads a batch and begins. -/
def beginHolders (s : HolderCounts) (size : ℕ) : Option HolderCounts :=
  match s.holdersTx with
  | none =>
    let batch := (log.drop s.holdersRead).take size
    let touched := (batch.filterMap (touchedVault ext)).toFinset
    some { s with
      holdersRead := s.holdersRead + batch.length
      holdersTx := some
        { events := batch
          positions := s.kg.activeVaultPosition
          touched
          toRefresh := touched } }
  | some _ => none

/-- The next event of the batch is processed. -/
def holdersEvent (s : HolderCounts) : Option HolderCounts :=
  match s.holdersTx with
  | some t =>
    match t.events with
    | e :: events =>
      let tx := VaultHoldersIndexDualProjection.processEvent ext true { kg := s.seenByHolders t } e
      some { s with
        holdersTx := some { t with events, positions := tx.kg.activeVaultPosition } }
    | [] => none
  | none => none

/-- The holders of a vault are counted. A vault without a row that is committed
is not matched; a row that is locked is waited for. -/
def holdersRefresh (s : HolderCounts) (k : VaultKey) : Option HolderCounts :=
  match s.holdersTx with
  | some t =>
    if t.events.isEmpty ∧ k ∈ t.toRefresh then
      match s.kg.vaults.lookup k with
      | none => some { s with holdersTx := some { t with toRefresh := t.toRefresh.erase k } }
      | some _ =>
        if ∀ i < n, s.vaultStateRow i k = none then
          let kg := KgMarketRepo.refreshKgHolderCount (s.seenByHolders t) k.termId k.curveId
          some { s with
            holdersTx := some { t with
              rows := t.rows.alter k fun _ => kg.vaults.lookup k
              toRefresh := t.toRefresh.erase k } }
        else none
    else none
  | none => none

def commitHolders (s : HolderCounts) : Option HolderCounts :=
  match s.holdersTx with
  | some t =>
    if t.events.isEmpty ∧ t.toRefresh = ∅ then
      some { s with kg := s.seenByHolders t, holdersTx := none }
    else none
  | none => none

/-- What an action does, where it is possible. -/
def step (s : HolderCounts) : Action → Option HolderCounts
  | .beginVaultState i size => s.beginVaultState ext n log i size
  | .vaultStateEvent i => s.vaultStateEvent ext n i
  | .vaultStateRefresh i k => s.vaultStateRefresh i k
  | .commitVaultState i => s.commitVaultState i
  | .beginHolders size => s.beginHolders ext log size
  | .holdersEvent => s.holdersEvent ext
  | .holdersRefresh k => s.holdersRefresh n k
  | .commitHolders => s.commitHolders

/-! ## What has to hold -/

/-- Both workers have processed the log. -/
def Done (s : HolderCounts) : Prop :=
  (∀ i < n, log.length ≤ s.vaultStateRead i ∧ s.vaultStateTx i = none)
    ∧ log.length ≤ s.holdersRead ∧ s.holdersTx = none

/-- Every vault has as many holders as it has positions with shares. -/
def CountsAgree (s : HolderCounts) : Prop :=
  ∀ k row, s.kg.vaults.lookup k = some row →
    row.holderCount = countHolders s.kg.activeVaultPosition k

/-- The shard of a vault. -/
def owner (k : VaultKey) : ℕ := Shard.shardOfVault ext n k.termId k.curveId

/-- The number of holders of the row a vault will have when its shard commits. -/
def nextCount (s : HolderCounts) (k : VaultKey) : Option ℕ :=
  ((s.vaultStateRow (owner ext n k) k).or (s.kg.vaults.lookup k)).map VaultRow.holderCount

/-- The shard of a vault is still to count its holders. -/
def VaultStateDue (s : HolderCounts) (k : VaultKey) : Prop :=
  (∃ t, s.vaultStateTx (owner ext n k) = some t ∧ k ∈ t.toRefresh)
    ∨ ∃ e ∈ log.drop (s.vaultStateRead (owner ext n k)), touchedVault ext e = some k

/-- The holders index is still to read an event of a vault. -/
def HoldersAhead (s : HolderCounts) (k : VaultKey) : Prop :=
  ∃ e ∈ log.drop s.holdersRead, touchedVault ext e = some k

/-- **No count is missed**: where the holders index commits positions in a vault
and its count found no row, the holders of the vault are still to be counted, or
the positions make no difference. -/
def NotMissed (s : HolderCounts) : Action → Prop
  | .commitHolders => ∀ t, s.holdersTx = some t → ∀ k ∈ t.touched, t.rows.lookup k = none →
      s.VaultStateDue ext n log k ∨ s.HoldersAhead ext log k
        ∨ ∀ c ∈ s.nextCount ext n k, c = countHolders t.positions k
  | _ => True

/-! ## What the statements do to a row -/

variable {ext n log} {s s' : HolderCounts} {i : ℕ} {k : VaultKey} {e : ParsedEvent}

theorem shardVault_eq_some (hext : ext.Lawful) (hi : i < n) :
    shardVault ext n i e = some k ↔ vaultOf ext e = some k ∧ owner ext n k = i := by
  unfold shardVault
  rw [ParsedEvent.isOfShard_eq hext, Option.ite_none_right_eq_some]
  cases vaultOf ext e with
  | none => simp
  | some k' =>
    rw [Option.any_some, Option.some.injEq, and_comm]
    refine and_congr_right fun hk => ?_
    subst hk
    exact Shard.ownsVault_iff hi _ _

theorem touchedShardVault_eq_some (hext : ext.Lawful) (hi : i < n) :
    VaultStateDualProjection.touchedShardVault ext i n e = some k
      ↔ touchedVault ext e = some k ∧ owner ext n k = i := by
  cases e with
  | deposited metadata data | redeemed metadata data =>
    show (if Shard.shouldSkipShard ext i n data.termId data.curveId then none
      else touchedVault ext _) = some k ↔ some _ = some k ∧ _
    rw [Shard.shouldSkipShard_eq hext, Option.ite_none_left_eq_some, Bool.not_eq_true',
      Bool.not_eq_false, Shard.ownsVault_iff hi, and_comm]
    refine and_congr_right fun hk => ?_
    cases hk
    exact Iff.rfl
  | _ =>
    refine iff_of_false (fun h => ?_) fun h => ?_
    · cases h
    · cases h.1

/-- A deposit or a redemption in a vault gives it a row. -/
theorem step_ne_none_of_touched (h : touchedVault ext e = some k) (r : Option VaultRow) :
    vaultOf ext e = some k ∧ (vaultLedger ext).step r e ≠ none := by
  cases e with
  | deposited | redeemed => exact ⟨h, Option.some_ne_none _⟩
  | _ => cases h

/-- What happens to a vault leaves its number of holders alone; a first row has
none. -/
theorem holderCount_step (ext : Externals) (r : Option VaultRow) (e : ParsedEvent) :
    ((vaultLedger ext).step r e).map VaultRow.holderCount = r.map VaultRow.holderCount
      ∨ r = none ∧ ((vaultLedger ext).step r e).map VaultRow.holderCount = some 0 := by
  cases e with
  | deposited | redeemed =>
    cases r with
    | none => exact .inr ⟨rfl, rfl⟩
    | some row => exact .inl rfl
  | sharePriceChanged metadata data =>
    cases hcap : computeMarketCap ext (ext.toString data.totalShares)
      (ext.toString data.sharePrice) with
    | error _ => exact .inl (by rw [vaultLedger_step_sharePriceChanged_of_error metadata hcap])
    | ok marketCap =>
      rw [vaultLedger_step_sharePriceChanged metadata hcap]
      cases r with
      | none => exact .inr ⟨rfl, rfl⟩
      | some row => exact .inl rfl
  | _ => exact .inl rfl

/-- The holders of a vault are those of its positions. -/
theorem countHolders_congr {t u : Table PositionKey ActiveVaultPositionRow}
    (h : ∀ p : PositionKey, p.vault = k → t.lookup p = u.lookup p) :
    countHolders t k = countHolders u k := by
  refine Table.count_congr fun p => ?_
  by_cases hp : p.vault = k
  · rw [h p hp]
  · cases t.lookup p <;> cases u.lookup p <;> simp [hp]

/-- An event of another vault leaves the holders of a vault alone. -/
theorem countHolders_record {t : Table PositionKey ActiveVaultPositionRow}
    (own : PositionKey → Bool) (h : touchedVault ext e ≠ some k) :
    countHolders (t.record (activeLedger ext) own e) k = countHolders t k := by
  refine countHolders_congr fun p hp => ?_
  rw [Table.lookup_record]
  refine if_neg fun hconcerns => h ?_
  subst hp
  have hkey : (activeLedger ext).key e = some p := of_decide_eq_true (Bool.and_elim_right hconcerns)
  cases e with
  | deposited metadata data | redeemed metadata data =>
    cases hkey
    rfl
  | _ => cases hkey

/-- Counting the holders of a vault that has a row. -/
theorem lookup_refreshKgHolderCount (kg : KgDb) :
    ((KgMarketRepo.refreshKgHolderCount kg k.termId k.curveId).vaults.lookup k).map
        VaultRow.holderCount
      = (kg.vaults.lookup k).map fun _ => countHolders kg.activeVaultPosition k := by
  show ((kg.vaults.update k _).lookup k).map VaultRow.holderCount = _
  rw [Table.lookup_update, if_pos rfl, Option.map_map]
  rfl

/-! ## What an action does -/

theorem beginVaultState_eq_some {size : ℕ}
    (h : s.beginVaultState ext n log i size = some s') :
    s.vaultStateTx i = none ∧ i < n ∧ ∃ batch,
      batch = (log.drop (s.vaultStateRead i)).take size
      ∧ s' = { s.setVaultStateTx i (some
          { events := batch
            toRefresh := (batch.filterMap
              (VaultStateDualProjection.touchedShardVault ext i n)).toFinset }) with
          vaultStateRead :=
            Function.update s.vaultStateRead i (s.vaultStateRead i + batch.length) } := by
  unfold beginVaultState at h
  split at h
  · next htx =>
    obtain ⟨hi, ⟨⟩⟩ := Option.ite_none_right_eq_some.mp h
    exact ⟨htx, hi, _, rfl, rfl⟩
  · cases h

theorem vaultStateEvent_eq_some (h : s.vaultStateEvent ext n i = some s') :
    ∃ e events rows toRefresh tx, s.vaultStateTx i = some ⟨e :: events, rows, toRefresh⟩
      ∧ (∀ k, shardVault ext n i e = some k → s.holdersRow k = none)
      ∧ VaultStateDualProjection.processEvent ext i n true { kg := s.seenByVaultState rows } e
        = .ok tx
      ∧ ∃ rows', (∀ k, rows'.lookup k = if shardVault ext n i e = some k then tx.kg.vaults.lookup k
          else rows.lookup k)
        ∧ s' = s.setVaultStateTx i (some { events, rows := rows', toRefresh }) := by
  unfold vaultStateEvent at h
  split at h
  · next e events rows toRefresh htx =>
    obtain ⟨hfree, h⟩ := Option.ite_none_right_eq_some.mp h
    split at h
    · next tx htx' =>
      cases h
      refine ⟨e, events, rows, toRefresh, tx, htx, hfree, htx', _, fun k => ?_, rfl⟩
      cases shardVault ext n i e with
      | none => rfl
      | some k' =>
        rw [Table.lookup_alter]
        by_cases hk : k = k'
        · subst hk
          rw [if_pos rfl, if_pos rfl]
        · rw [if_neg hk, if_neg fun hk' => hk (Option.some.inj hk').symm]
    · cases h
  · cases h

theorem vaultStateRefresh_eq_some {k : VaultKey} (h : s.vaultStateRefresh i k = some s') :
    ∃ rows toRefresh, s.vaultStateTx i = some ⟨[], rows, toRefresh⟩ ∧ k ∈ toRefresh
      ∧ ∃ rows', (∀ k', rows'.lookup k' = if k' = k then
          (KgMarketRepo.refreshKgHolderCount (s.seenByVaultState rows) k.termId
            k.curveId).vaults.lookup k
          else rows.lookup k')
        ∧ s' = s.setVaultStateTx i
          (some { events := [], rows := rows', toRefresh := toRefresh.erase k }) := by
  unfold vaultStateRefresh at h
  split at h
  · next rows toRefresh htx =>
    obtain ⟨hk, ⟨⟩⟩ := Option.ite_none_right_eq_some.mp h
    exact ⟨rows, toRefresh, htx, hk, _, fun k' => Table.lookup_alter _ _ _ _, rfl⟩
  · cases h

theorem commitVaultState_eq_some (h : s.commitVaultState i = some s') :
    ∃ rows, s.vaultStateTx i = some ⟨[], rows, ∅⟩
      ∧ s' = { s.setVaultStateTx i none with kg := s.seenByVaultState rows } := by
  unfold commitVaultState at h
  split at h
  · next rows toRefresh htx =>
    obtain ⟨rfl, ⟨⟩⟩ := Option.ite_none_right_eq_some.mp h
    exact ⟨rows, htx, rfl⟩
  · cases h

theorem beginHolders_eq_some {size : ℕ} (h : s.beginHolders ext log size = some s') :
    s.holdersTx = none ∧ ∃ batch touched, batch = (log.drop s.holdersRead).take size
      ∧ touched = (batch.filterMap (touchedVault ext)).toFinset
      ∧ s' = { s with
          holdersRead := s.holdersRead + batch.length
          holdersTx := some
            { events := batch
              positions := s.kg.activeVaultPosition
              touched
              toRefresh := touched } } := by
  unfold beginHolders at h
  split at h
  · next htx =>
    cases h
    exact ⟨htx, _, _, rfl, rfl, rfl⟩
  · cases h

theorem holdersEvent_eq_some (h : s.holdersEvent ext = some s') :
    ∃ t e events, s.holdersTx = some t ∧ t.events = e :: events
      ∧ s' = { s with holdersTx := some { t with
          events
          positions := t.positions.record (activeLedger ext) (fun _ => true) e } } := by
  unfold holdersEvent at h
  split at h
  · next t htx =>
    split at h
    · next e events hevents =>
      cases h
      refine ⟨t, e, events, htx, hevents, ?_⟩
      rw [VaultHoldersIndexDualProjection.kgPositions_processEvent]
      rfl
    · cases h
  · cases h

theorem holdersRefresh_eq_some (h : s.holdersRefresh n k = some s') :
    ∃ t, s.holdersTx = some t ∧ t.events = [] ∧ k ∈ t.toRefresh ∧ ∃ rows,
      s' = { s with holdersTx := some { t with rows, toRefresh := t.toRefresh.erase k } }
      ∧ (rows = t.rows ∨ (∀ i < n, s.vaultStateRow i k = none) ∧ ∀ k',
          rows.lookup k' = if k' = k then
            (KgMarketRepo.refreshKgHolderCount (s.seenByHolders t) k.termId
              k.curveId).vaults.lookup k
          else t.rows.lookup k') := by
  unfold holdersRefresh at h
  split at h
  · next t htx =>
    obtain ⟨⟨hevents, hk⟩, h⟩ := Option.ite_none_right_eq_some.mp h
    refine ⟨t, htx, List.isEmpty_iff.mp hevents, hk, ?_⟩
    split at h
    · cases h
      exact ⟨_, rfl, .inl rfl⟩
    · obtain ⟨hfree, ⟨⟩⟩ := Option.ite_none_right_eq_some.mp h
      exact ⟨_, rfl, .inr ⟨hfree, fun k' => Table.lookup_alter _ _ _ _⟩⟩
  · cases h

theorem commitHolders_eq_some (h : s.commitHolders = some s') :
    ∃ t, s.holdersTx = some t ∧ t.events = [] ∧ t.toRefresh = ∅
      ∧ s' = { s with kg := s.seenByHolders t, holdersTx := none } := by
  unfold commitHolders at h
  split at h
  · next t htx =>
    obtain ⟨⟨hevents, hrefresh⟩, ⟨⟩⟩ := Option.ite_none_right_eq_some.mp h
    exact ⟨t, htx, List.isEmpty_iff.mp hevents, hrefresh, rfl⟩
  · cases h

end HolderCounts
