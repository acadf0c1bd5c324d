import IntuitionCore.Projections.HoldersOrder
import IntuitionCore.Projections.PositionOrder
import IntuitionCore.Projections.Resharding
import IntuitionCore.Surreal.Flows

/-!
# Whose shares a redemption takes

A redemption has a sender, whose shares it burns, and a receiver, who is paid.
Four read models record it. Three of them take the shares from the sender: the
index of active positions, the market events of the KG database, and the graph.
The table of positions takes them from the receiver.

So the two tables of positions agree on every account, with every redemption
recorded of the same one, exactly if senders redeem to themselves, and only
shares they have.
-/

open Relation

/-- The account whose position the edge of a withdrawal leaves. -/
def SinkOperation.withdrawer? : SinkOperation → Option String
  | .upsertEdge source "withdraw" _ _ _ => some source.id
  | _ => none

namespace RedeemedRecord

variable (ext : Externals) (fmt : SurrealFormats) (metadata : EventMetadata)
  (data : RedeemedRecord)

/-- The account of the row of `position` that a redemption changes. -/
def positionAccount : Option String :=
  ((positionLedger ext).key (.redeemed metadata data)).map PositionKey.accountId

/-- The account of the row of `active_vault_position` that it changes. -/
def indexAccount : Option String :=
  ((activeLedger ext).key (.redeemed metadata data)).map PositionKey.accountId

/-- The account of the market event that it inserts. -/
def marketEventAccount : Option String :=
  ((KgMarketRepo.insertKgMarketEventRedeemed {} metadata data).events.lookup
    (metadata.blockTimestamp, s!"{metadata.transactionHash}:{metadata.logIndex}")).bind
      MarketEventRow.accountId

/-- The account whose withdrawal it is in the graph. -/
def graphAccount : Option String :=
  (RedeemProjection.buildRedeemOps fmt metadata data).findSome? SinkOperation.withdrawer?

/-- A redemption is of the same account in all four read models. -/
def AttributedAlike : Prop :=
  positionAccount ext metadata data = indexAccount ext metadata data
    ∧ indexAccount ext metadata data = marketEventAccount metadata data
    ∧ marketEventAccount metadata data = graphAccount fmt metadata data

variable {ext fmt metadata data}

/-- **A redemption is attributed alike exactly if its sender is paid.** -/
theorem attributedAlike_iff :
    data.AttributedAlike ext fmt metadata ↔ data.sender = data.receiver := by
  have hevent : marketEventAccount metadata data = some data.sender := by
    unfold marketEventAccount KgMarketRepo.insertKgMarketEventRedeemed
      KgMarketRepo.insertMarketEvent Table.insertIfAbsent
    rw [Table.lookup_upsert, if_pos rfl]
    rfl
  have hgraph : graphAccount fmt metadata data = some data.sender := rfl
  unfold AttributedAlike
  rw [hevent, hgraph]
  -- the table of positions has the receiver, and the other three the sender
  show some data.receiver = some data.sender ∧ some data.sender = some data.sender ∧ _ ↔ _
  rw [Option.some.injEq]
  exact ⟨fun h => h.1.symm, fun h => ⟨h.symm, rfl, rfl⟩⟩

end RedeemedRecord

/-- The read models agree on a log: every account has the same shares in the
table of positions and in the index, where no row is no shares, and every
redemption is of the same account in all four. -/
structure Service.ReadModelsAgree (ext : Externals) (fmt : SurrealFormats) (s : Service) :
    Prop where
  shares_eq : ∀ k, (s.stores.db.position.lookup k |>.getD {}).shares
    = indexedShares (s.stores.db.activeVaultPosition.lookup k)
  attributed : ∀ metadata data, .redeemed metadata data ∈ s.eventStore.map StoredEvent.counted →
    data.AttributedAlike ext fmt metadata

/-- Whoever redeems is paid. -/
def RedeemersArePaid (log : List ParsedEvent) : Prop :=
  ∀ metadata data, .redeemed metadata data ∈ log → data.sender = data.receiver

/-- Nobody ever redeems more shares than they have. -/
def RedeemersHaveShares (ext : Externals) (log : List ParsedEvent) : Prop :=
  ∀ p before, before <+: log → 0 ≤ netShares ext p (before : Multiset ParsedEvent)

variable {ext : Externals} {p : PositionKey} {log : List ParsedEvent}

/-- Where redeemers are paid, the tables of positions have the same keys. -/
theorem RedeemersArePaid.concerns_eq (h : RedeemersArePaid log) {e : ParsedEvent} (he : e ∈ log) :
    (positionLedger ext).concerns p e = (activeLedger ext).concerns p e := by
  have hkey : (positionLedger ext).key e = (activeLedger ext).key e := by
    cases e with
    | redeemed metadata data =>
      exact congrArg (fun account => some (PositionKey.mk account data.termId
        (ext.toString data.curveId))) (h metadata data he).symm
    | _ => rfl
  unfold Ledger.concerns
  rw [hkey]

/-- **The shares of a position are those of the index exactly if its account
never redeems more than it has**, where redeemers are paid. -/
theorem shares_eq_indexedShares_iff (hunsigned : ∀ e ∈ log, e.Unsigned)
    (hpaid : RedeemersArePaid log) :
    (((positionLedger ext).row log p).getD {}).shares = indexedShares ((activeLedger ext).row log p)
      ↔ ∀ before, before <+: log → 0 ≤ netShares ext p (before : Multiset ParsedEvent) := by
  have hnet : (((positionLedger ext).row log p).getD {}).shares = netShares ext p log := by
    have hconcerns : ∀ e ∈ log,
        (positionLedger ext).concerns p e = (activeLedger ext).concerns p e :=
      fun e he => hpaid.concerns_eq he
    rw [netShares, ← (positionLedger ext).total_congr hconcerns,
      ← (positionLedger ext).total_congr hconcerns]
    exact shares_apply ext p log
  have hnone : indexedShares none = 0 := rfl
  simp only [hnet, netShares_eq_total]
  rw [← (activeLedger ext).reflected_eq_total_iff
    (fun e he r hr => indexedShares_step (hunsigned e he) hr) hnone]
  exact eq_comm

section

variable {config : ProjectionsConfig} {kgPool : Bool} {s₀ s : Service}

/-- The rows of the index where the event store has been processed. -/
theorem active_lookup_of_processed
    (hindex : config.isProjectionEnabled "vault_holders_index" = true)
    (hdual : config.isProjectionEnabled "vault_holders_index:dual" = false) (hfresh : s₀.Fresh)
    (hrun : ReflTransGen (Service.Step ext config kgPool) s₀ s)
    (hdone : s.Processed config kgPool) (k : PositionKey) :
    s.stores.db.activeVaultPosition.lookup k
      = (activeLedger ext).row (s.eventStore.map StoredEvent.counted) k := by
  have hsolo : ¬ (config.isProjectionEnabled "vault_holders_index" = true
      ∧ config.isProjectionEnabled "vault_holders_index:dual" = true) := by
    rw [hdual]
    exact fun h => Bool.false_ne_true h.2
  refine (ReadModel.rows_of_processed (solo_activePositions hsolo) hfresh hrun hdone k).trans
    (if_pos ((exists_owns_activePositions k).mpr ?_))
  unfold ProjectionsConfig.writesActivePositions
  rw [hindex, Bool.true_or]

/-- **The read models agree exactly if whoever redeems is paid, and nobody ever
redeems more than they have**: whatever the shards, the batches and the
interleaving of the two projections, once both have processed the log. -/
theorem readModelsAgree_iff (hext : ext.Lawful) (fmt : SurrealFormats)
    (hshards : 1 ≤ config.positionTrackingShards)
    (hposition : config.isProjectionEnabled "position_tracking" = true)
    (hindex : config.isProjectionEnabled "vault_holders_index" = true)
    (hdual : config.isProjectionEnabled "vault_holders_index:dual" = false)
    (hfresh : s₀.Fresh) (hrun : ReflTransGen (Service.Step ext config kgPool) s₀ s)
    (hdone : s.Processed config kgPool)
    (hunsigned : ∀ e ∈ s.eventStore.map StoredEvent.counted, e.Unsigned) :
    s.ReadModelsAgree ext fmt
      ↔ RedeemersArePaid (s.eventStore.map StoredEvent.counted)
        ∧ RedeemersHaveShares ext (s.eventStore.map StoredEvent.counted) := by
  have hpaid : (∀ metadata data, .redeemed metadata data ∈ s.eventStore.map StoredEvent.counted →
      data.AttributedAlike ext fmt metadata)
      ↔ RedeemersArePaid (s.eventStore.map StoredEvent.counted) := by
    simp only [RedeemedRecord.attributedAlike_iff]
    exact Iff.rfl
  -- both tables are what their ledgers say of the log
  have hagree : s.ReadModelsAgree ext fmt
      ↔ (∀ k, (((positionLedger ext).row (s.eventStore.map StoredEvent.counted) k).getD {}).shares
          = indexedShares ((activeLedger ext).row (s.eventStore.map StoredEvent.counted) k))
        ∧ RedeemersArePaid (s.eventStore.map StoredEvent.counted) := by
    simp only [← position_lookup_of_processed hext hshards hposition hfresh hrun hdone,
      ← active_lookup_of_processed hindex hdual hfresh hrun hdone, ← hpaid]
    exact ⟨fun h => ⟨h.shares_eq, h.attributed⟩, fun h => ⟨h.1, h.2⟩⟩
  rw [hagree, and_comm]
  refine and_congr_right fun hpaid => ?_
  exact forall_congr' fun k => shares_eq_indexedShares_iff hunsigned hpaid

end

/-! ## A redemption for somebody else -/

/-- Only the two projections of positions, with one shard. -/
def positionsConfig : ProjectionsConfig where
  positionTrackingShards := 1
  enabledProjections := ["position_tracking", "vault_holders_index"]

/-- A redemption of ten shares whose assets are paid to somebody else. -/
def redeemedForAnother : StoredEvent :=
  { firstRedemption with
    sequenceNumber := 1
    eventData := { redeemed := some { firstRedemptionData with receiver := "0xb" } } }

/-- An event that a projection can process is processed by all workers of a
process. -/
theorem exists_run_positions {e : StoredEvent} (hpos : 0 < e.sequenceNumber)
    (hok : ∀ (p : PgProjection) (pool : Stores), ∃ pool',
      p.processParsedBatch .exact pool [ParsedEvent.parseOrUnknown e] = .ok pool') :
    ∃ s, ReflTransGen (Service.Step .exact positionsConfig false) { eventStore := [e] } s
      ∧ s.eventStore = [e] ∧ s.Processed positionsConfig false := by
  obtain ⟨s, hrun, hstore, hdone, -⟩ := exists_run_processed positionsConfig false (e := e)
    (J := fun _ => True) (by decide) hpos hok trivial fun _ _ _ _ _ _ _ => trivial
  exact ⟨s, hrun, hstore, hdone⟩

/-- The condition is met by a log of one deposit. -/
theorem readModelsAgree_deposited : ∃ s : Service, s.ReadModelsAgree .exact .exact := by
  obtain ⟨s, hrun, hstore, hdone⟩ := exists_run_positions (e := firstDeposit) (by decide)
    exists_process_firstDeposit
  have hlog : s.eventStore.map StoredEvent.counted = [depositedTen] := by
    rw [hstore]
    rfl
  refine ⟨s, (readModelsAgree_iff Externals.exact_lawful .exact (by decide) (by decide) (by decide)
    (by decide) (Service.fresh_singleton (by decide)) hrun hdone ?_).mpr ?_⟩
  · rw [hlog]
    simpa using unsigned_depositedTen
  · rw [hlog]
    refine ⟨fun metadata data hmem => ?_, fun p before hbefore => ?_⟩
    · cases List.mem_singleton.mp hmem
    · rw [netShares_eq_total]
      refine (activeLedger _).total_nonneg fun e he => ?_
      rw [List.mem_singleton.mp (hbefore.mem he)]
      decide +kernel

/-- **The read models disagree on a redemption for somebody else**: the table of
positions takes ten shares from its receiver, who has none, and the index from
its sender. -/
theorem readModels_disagree : ∃ s : Service,
    ReflTransGen (Service.Step .exact positionsConfig false)
      { eventStore := [redeemedForAnother] } s
      ∧ s.Processed positionsConfig false ∧ ¬ s.ReadModelsAgree .exact .exact := by
  obtain ⟨s, hrun, hstore, hdone⟩ := exists_run_positions (e := redeemedForAnother) (by decide)
    fun p pool => PgProjection.exists_process_redeemed .exact _
      { firstRedemptionData with receiver := "0xb" } p pool
  refine ⟨s, hrun, hdone, fun h => ?_⟩
  have hfresh := Service.fresh_singleton (e := redeemedForAnother) (by decide)
  have hshares := h.shares_eq ⟨"0xb", "0x07", Externals.exact.toString ⟨1, 0⟩⟩
  rw [position_lookup_of_processed Externals.exact_lawful (by decide) (by decide) hfresh hrun hdone,
    active_lookup_of_processed (by decide) (by decide) hfresh hrun hdone, hstore] at hshares
  revert hshares
  decide +kernel
