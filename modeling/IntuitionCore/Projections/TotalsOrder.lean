import IntuitionCore.Projections.Amounts
import IntuitionCore.Projections.Copies

/-!
# Vault totals and the order of arrival

The totals of a vault should be what was deposited less what was redeemed, and
what was redeemed, whatever order the events arrived in. Both statements keep
these sums once the vault has a row. The one for redemptions forgets to take
the assets from the deposits when it makes the row itself, so the totals are
right exactly if the first event of the vault takes no assets.
-/

open Result

/-- The totals of a vault are the sums over its events; a vault without a row
has none. -/
def TotalsExact (ext : Externals) (t : Table VaultKey VaultRow) (k : VaultKey)
    (events : Multiset ParsedEvent) : Prop :=
  ((t.lookup k).map VaultRow.totals).getD {}
    = { totalDeposits := (totalsLedger ext).total ParsedEvent.assetsIn k events
          - (totalsLedger ext).total ParsedEvent.assetsOut k events
        totalRedemptions := (totalsLedger ext).total ParsedEvent.assetsOut k events }

/-- The first event of a vault takes no assets from it. -/
def OpensWithoutRedeeming (ext : Externals) (k : VaultKey) (events : List ParsedEvent) : Prop :=
  ∀ e, events.find? ((totalsLedger ext).concerns k) = some e → e.assetsOut = 0

variable {ext : Externals} {k : VaultKey} {r : Option Totals} {e : ParsedEvent}
  {es : List ParsedEvent}

/-! ## What the statements keep -/

/-- An event adds what it moves to the deposits of a vault that has a row. -/
theorem totalsStep_totalDeposits (e : ParsedEvent) (h : r.isSome = true) :
    ((totalsStep ext r e).getD {}).totalDeposits
      = (r.getD {}).totalDeposits + (e.assetsIn - e.assetsOut) := by
  obtain ⟨t, rfl⟩ := Option.isSome_iff_exists.mp h
  cases e with
  | deposited metadata data => exact congrArg (t.totalDeposits + ·) (sub_zero _).symm
  | redeemed metadata data =>
    show t.totalDeposits - data.assets.val = t.totalDeposits + (0 - data.assets.val)
    rw [zero_sub, sub_eq_add_neg]
  | sharePriceChanged metadata data =>
    show _ = t.totalDeposits + (0 - 0)
    rw [sub_zero, add_zero]
    cases hcap : computeMarketCap ext (ext.toString data.totalShares)
      (ext.toString data.sharePrice) <;> simp only [totalsStep, hcap, Option.getD_some]
  | _ =>
    show t.totalDeposits = t.totalDeposits + (0 - 0)
    rw [sub_zero, add_zero]

/-- An event adds what it takes to the redemptions of its vault. -/
theorem totalsStep_totalRedemptions (r : Option Totals) (e : ParsedEvent) :
    ((totalsStep ext r e).getD {}).totalRedemptions
      = (r.getD {}).totalRedemptions + e.assetsOut := by
  cases e with
  | deposited metadata data => cases r <;> exact (add_zero _).symm
  | redeemed metadata data =>
    cases r with
    | none => exact (zero_add _).symm
    | some t => rfl
  | sharePriceChanged metadata data =>
    show _ = (r.getD {}).totalRedemptions + 0
    rw [add_zero]
    cases hcap : computeMarketCap ext (ext.toString data.totalShares)
      (ext.toString data.sharePrice) <;> simp only [totalsStep, hcap, Option.getD_some]
  | _ => exact (add_zero _).symm

/-- The deposits of a new row are what its first event moves, unless it takes
assets. -/
theorem totalsStep_none_totalDeposits (e : ParsedEvent) :
    ((totalsStep ext none e).getD {}).totalDeposits = e.assetsIn := by
  cases e with
  | sharePriceChanged metadata data =>
    cases hcap : computeMarketCap ext (ext.toString data.totalShares)
      (ext.toString data.sharePrice) <;> simp only [totalsStep, hcap] <;> rfl
  | _ => rfl

/-- The redemptions of a vault come out right. -/
theorem totalRedemptions_apply (ext : Externals) (k : VaultKey) (r : Option Totals)
    (es : List ParsedEvent) :
    (((totalsLedger ext).apply k r es).getD {}).totalRedemptions
      = (r.getD {}).totalRedemptions + (totalsLedger ext).total ParsedEvent.assetsOut k es := by
  refine (totalsLedger ext).measure_apply (P := fun _ => True)
    (μ := fun r : Option Totals => (r.getD {}).totalRedemptions) (fun _ _ _ => trivial) ?_ trivial
  intro r e _
  exact totalsStep_totalRedemptions r e

/-- The deposits of a vault that has a row come out right. -/
theorem totalDeposits_apply (h : r.isSome = true) :
    (((totalsLedger ext).apply k r es).getD {}).totalDeposits
      = (r.getD {}).totalDeposits
        + (totalsLedger ext).total (fun e => e.assetsIn - e.assetsOut) k es := by
  refine (totalsLedger ext).measure_apply (P := fun r => r.isSome = true)
    (μ := fun r : Option Totals => (r.getD {}).totalDeposits) totalsStep_isSome ?_ h
  intro r e h
  exact totalsStep_totalDeposits e h

/-- The deposits of a vault without a row come out right exactly if its first
event takes no assets, provided that this event makes the row. -/
theorem totalDeposits_apply_none (hopen : ∀ e ∈ es, (totalsLedger ext).concerns k e = true →
      (totalsStep ext none e).isSome = true) :
    (((totalsLedger ext).apply k none es).getD {}).totalDeposits
        = (totalsLedger ext).total (fun e => e.assetsIn - e.assetsOut) k es
      ↔ OpensWithoutRedeeming ext k es := by
  induction es with
  | nil => exact iff_of_true (Ledger.total_nil _).symm fun e h => by cases h
  | cons e es ih =>
    unfold OpensWithoutRedeeming
    rw [Ledger.apply_cons, Ledger.total_cons, List.find?_cons]
    cases hk : (totalsLedger ext).concerns k e with
    | false =>
      simp only [Bool.false_eq_true, if_false, zero_add]
      exact ih fun e he => hopen e (List.mem_cons_of_mem _ he)
    | true =>
      have hstep : (totalsLedger ext).step none e = totalsStep ext none e := rfl
      have hsome := hopen e List.mem_cons_self hk
      simp only [if_true, hstep, totalDeposits_apply hsome, totalsStep_none_totalDeposits,
        Option.some.injEq, forall_eq', add_left_inj]
      exact ⟨fun h => by linarith, fun h => by rw [h, sub_zero]⟩

/-- **The totals of a vault without a row come out right exactly if its first
event takes no assets.** -/
theorem totals_apply_none (hopen : ∀ e ∈ es, (totalsLedger ext).concerns k e = true →
      (totalsStep ext none e).isSome = true) :
    ((totalsLedger ext).apply k none es).getD {}
        = { totalDeposits := (totalsLedger ext).total ParsedEvent.assetsIn k es
              - (totalsLedger ext).total ParsedEvent.assetsOut k es
            totalRedemptions := (totalsLedger ext).total ParsedEvent.assetsOut k es }
      ↔ OpensWithoutRedeeming ext k es := by
  have hsub : (totalsLedger ext).total (fun e => e.assetsIn - e.assetsOut) k (es : Multiset _)
      = (totalsLedger ext).total ParsedEvent.assetsIn k es
        - (totalsLedger ext).total ParsedEvent.assetsOut k es := Multiset.sum_map_sub
  rw [← totalDeposits_apply_none hopen, hsub]
  constructor
  · intro h
    rw [h]
  · intro h
    have hredemptions := totalRedemptions_apply ext k none es
    rw [Option.getD_none, zero_add] at hredemptions
    exact congrArg₂ Totals.mk h hredemptions

/-! ## The projections of vault totals -/

/-- A price change that `vault_state` processes makes a row for its vault. -/
theorem totalsStep_isSome_of_vaultState (hext : ext.Lawful) {i n : ℕ} {tx tx' : Db}
    (h : VaultStateProjection.processEvent ext i n tx e = .ok tx')
    (hk : vaultOf ext e = some k) (hown : ownsShardVault ext i n k = true) :
    (totalsStep ext none e).isSome = true := by
  cases e with
  | deposited | redeemed => rfl
  | sharePriceChanged metadata data =>
    cases hk
    rw [VaultStateProjection.processEvent, Shard.shouldSkipShard_eq hext] at h
    have hown' : Shard.ownsVault ext i n data.termId (ext.toString data.curveId) = true := hown
    rw [hown'] at h
    obtain ⟨marketCap, hcap, -⟩ := bind_eq_ok.mp h
    simp only [totalsStep, hcap, Option.isSome_some]
  | _ => cases hk

/-- What a projection of vault totals processes makes rows for its vaults. -/
theorem totalsStep_isSome_of_batches (hext : ext.Lawful) {p : PgProjection} {pool pool' : Stores}
    {batches : List (List ParsedEvent)}
    (h : batches.foldlM (p.processParsedBatch ext) pool = .ok pool')
    (hown : ownsVaultRow ext p k = true) :
    ∀ e ∈ batches.flatten, (totalsLedger ext).concerns k e = true →
      (totalsStep ext none e).isSome = true := by
  intro e he hk
  obtain ⟨batch, hbatch, he⟩ := List.mem_flatten.mp he
  obtain ⟨s₁, s₂, hs⟩ := foldlM_step_of_mem h hbatch
  have hk' : vaultOf ext e = some k := of_decide_eq_true hk
  cases p with
  | vaultState i n =>
    obtain ⟨db, hdb, -⟩ := bind_eq_ok.mp hs
    obtain ⟨tx, tx', htx⟩ := foldlM_step_of_mem hdb he
    exact totalsStep_isSome_of_vaultState hext htx hk' hown
  | vaultStateDual i n kg =>
    obtain ⟨tx, htx, -⟩ := bind_eq_ok.mp hs
    obtain ⟨tx₁, tx₂, htx⟩ := foldlM_step_of_mem htx he
    exact totalsStep_isSome_of_processed hext htx hk' hown none
  | _ => cases hown

section

variable {p : PgProjection} {pool pool' : Stores} {batches : List (List ParsedEvent)}

theorem totalsExact_vault_iff (hext : ext.Lawful)
    (hrun : batches.foldlM (p.processParsedBatch ext) pool = .ok pool')
    (hown : ownsVaultRow ext p k = true) (hnone : pool.db.vault.lookup k = none) :
    TotalsExact ext pool'.db.vault k batches.flatten
      ↔ OpensWithoutRedeeming ext k batches.flatten := by
  have hrows := (vaultTotals hext).rows_processBatches hrun k
  rw [vaultTotals_rows, vaultTotals_rows, hnone, show (vaultTotals hext).owns p k = true from hown,
    if_pos rfl] at hrows
  rw [TotalsExact, hrows]
  exact totals_apply_none (totalsStep_isSome_of_batches hext hrun hown)

theorem totalsExact_kgVaults_iff (hext : ext.Lawful)
    (hrun : batches.foldlM (p.processParsedBatch ext) pool = .ok pool')
    (hown : ownsKgVaultRow ext p k = true) (hnone : pool.kg.vaults.lookup k = none) :
    TotalsExact ext pool'.kg.vaults k batches.flatten
      ↔ OpensWithoutRedeeming ext k batches.flatten := by
  have hrows := (kgVaultTotals hext).rows_processBatches hrun k
  rw [kgVaultTotals_rows, kgVaultTotals_rows, hnone,
    show (kgVaultTotals hext).owns p k = true from hown, if_pos rfl] at hrows
  rw [TotalsExact, hrows]
  exact totals_apply_none (totalsStep_isSome_of_batches hext hrun (ownsVaultRow_of_kg hown))

end

/-- **The totals of a vault are the sums over its events exactly if the first
of these takes no assets**, in the legacy database and in the KG one: for the
projection that writes the vault, any batches it returned from, and any events
of other vaults among them. -/
theorem totalsExact_iff (hext : ext.Lawful) {p : PgProjection} {pool pool' : Stores}
    {batches : List (List ParsedEvent)}
    (hrun : batches.foldlM (p.processParsedBatch ext) pool = .ok pool') (k : VaultKey) :
    (ownsVaultRow ext p k = true → pool.db.vault.lookup k = none →
        (TotalsExact ext pool'.db.vault k batches.flatten
          ↔ OpensWithoutRedeeming ext k batches.flatten))
      ∧ (ownsKgVaultRow ext p k = true → pool.kg.vaults.lookup k = none →
        (TotalsExact ext pool'.kg.vaults k batches.flatten
          ↔ OpensWithoutRedeeming ext k batches.flatten)) :=
  ⟨totalsExact_vault_iff hext hrun, totalsExact_kgVaults_iff hext hrun⟩

/-! ## A redemption that arrives first -/

/-- The only worker of vault totals, with a KG pool. -/
def soleVaultProjection : PgProjection := .vaultStateDual 0 1 true

/-- A deposit and its redemption are processed in either order. -/
theorem exists_processed_either_order (ext : Externals) :
    (∃ pool, [[depositedTen], [redeemedTen]].foldlM
        (soleVaultProjection.processParsedBatch ext) {} = .ok pool)
      ∧ ∃ pool, [[redeemedTen], [depositedTen]].foldlM
        (soleVaultProjection.processParsedBatch ext) {} = .ok pool :=
  ⟨⟨_, rfl⟩, ⟨_, rfl⟩⟩

theorem opensWithoutRedeeming_deposited_first :
    OpensWithoutRedeeming ext (firstVault ext) [depositedTen, redeemedTen] := by
  have hk : (totalsLedger ext).concerns (firstVault ext) depositedTen = true :=
    concerns_firstDeposit
  intro e he
  rw [List.find?_cons_of_pos hk] at he
  cases he
  rfl

theorem not_opensWithoutRedeeming_redeemed_first :
    ¬ OpensWithoutRedeeming ext (firstVault ext) [redeemedTen, depositedTen] := by
  intro h
  have hzero := h redeemedTen (List.find?_cons_of_pos (decide_eq_true rfl))
  rw [assetsOut_redeemedTen] at hzero
  linarith

/-- The exact condition is met by a vault whose deposit arrives first. -/
theorem totalsExact_iff_deposited_first :
    ∃ pool : Stores, TotalsExact .exact pool.db.vault (firstVault .exact)
        ([[depositedTen], [redeemedTen]] : List (List ParsedEvent)).flatten
      ∧ TotalsExact .exact pool.kg.vaults (firstVault .exact)
        ([[depositedTen], [redeemedTen]] : List (List ParsedEvent)).flatten := by
  obtain ⟨pool, hrun⟩ := (exists_processed_either_order .exact).1
  have hiff := totalsExact_iff Externals.exact_lawful hrun (firstVault .exact)
  exact ⟨pool, (hiff.1 rfl rfl).mpr opensWithoutRedeeming_deposited_first,
    (hiff.2 rfl rfl).mpr opensWithoutRedeeming_deposited_first⟩

/-- **The totals depend on the order of arrival**: a redemption that arrives
before its deposit is never taken from the deposits, in neither database. -/
theorem totals_redeemed_first_not_exact :
    ∃ pool : Stores, [[redeemedTen], [depositedTen]].foldlM
        (soleVaultProjection.processParsedBatch .exact) {} = .ok pool
      ∧ ¬ TotalsExact .exact pool.db.vault (firstVault .exact) [redeemedTen, depositedTen]
      ∧ ¬ TotalsExact .exact pool.kg.vaults (firstVault .exact) [redeemedTen, depositedTen] := by
  obtain ⟨pool, hrun⟩ := (exists_processed_either_order .exact).2
  refine ⟨pool, hrun, fun h => ?_, fun h => ?_⟩
  · exact not_opensWithoutRedeeming_redeemed_first
      ((totalsExact_vault_iff Externals.exact_lawful hrun rfl rfl).mp h)
  · exact not_opensWithoutRedeeming_redeemed_first
      ((totalsExact_kgVaults_iff Externals.exact_lawful hrun rfl rfl).mp h)
