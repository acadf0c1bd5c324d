import IntuitionCore.Leaderboard.Repo
import IntuitionCore.Library.Run
import IntuitionCore.Projections.Positions

/-!
# When the leaderboard converges

Four workers and a timer make the leaderboard. One worker marks, two maintain the
positions and the vaults that accounts are computed from, and one maintains the
index that tells which accounts a marked vault stands for. The timer drains the
marks and computes. Each of the workers reads the events at its own pace.

A mark says that an account will have to be computed once its event has been
applied to the tables, and the timer takes it to say that it can be. If it drains
the mark first, it computes the account from tables that lack the event, and
nobody marks the account again. Likewise it takes the index to know every account
with shares in a vault. The index takes the account of a redemption from another
field than the table of positions does, so it may have lost an account that still
has shares there.

As long as neither happens, every account that is out of date is either marked,
or left to the running cycle, or about to be marked by an event that the marker
has not read. So once everything is read, one cycle brings all of them up to date.

Each transaction is atomic here, and none fails.
-/

open LeaderboardMarkerProjection LeaderboardRepo LeaderboardRefreshProjection

/-- The workers and the tables of the leaderboard. -/
structure LeaderboardService where
  service : Service
  board : LeaderboardDb := {}
  /-- The accounts the running cycle has left; none between cycles. -/
  remaining : List String := []

namespace LeaderboardService

/-- A transaction. -/
inductive Action where
  /-- Events are stored. -/
  | grow (events : List StoredEvent)
  /-- A worker applies a batch. -/
  | batch (w : PgWorker)
  /-- A cycle begins; the accounts it found come in some order. -/
  | drain (order : List String)
  /-- The running cycle computes its next chunk. -/
  | recompute (now : String → ℤ)

variable (ext : Externals) (ps : List PgProjection)

/-- What a batch does to the leaderboard: the marker marks. -/
def markBatch (s : LeaderboardService) (w : PgWorker) : LeaderboardDb :=
  if w.projection = .leaderboardMarker then
    LeaderboardMarkerProjection.processParsedBatch ext s.board
      (parseBatchOnce (w.readBatch s.service))
  else s.board

/-- The accounts a drain finds now. -/
def dirtySet (s : LeaderboardService) : Finset String :=
  accountSet s.service.stores.db s.board.dirtyVault.keys s.board.dirtyAccount.keys

/-- What an action does, where it is possible. -/
def step (s : LeaderboardService) : Action → Option LeaderboardService
  | .grow events =>
    if Feed.InOrder StoredEvent.sequenceNumber (s.service.eventStore ++ events)
        ∧ ∀ e ∈ events, 0 < e.sequenceNumber then
      some { s with service := { s.service with eventStore := s.service.eventStore ++ events } }
    else none
  | .batch w =>
    if w.projection ∈ ps then
      (w.iterate ext s.service).map fun service => { s with service, board := s.markBatch ext w }
    else none
  | .drain order =>
    if s.remaining = [] ∧ order.Nodup ∧ order.toFinset = s.dirtySet then
      some { s with
        board := (drainDirtyAccounts (drainDirtyVaults s.board).2).2
        remaining := order }
    else none
  | .recompute now =>
    match s.remaining with
    | [] => none
    | remaining =>
      some { s with
        board := refreshChunk s.service.stores.db now s.board (remaining.take pnlBatchSize)
        remaining := remaining.drop pnlBatchSize }

/-! ## Who is due -/

/-- A worker has read an event. -/
def HasRead (s : LeaderboardService) (p : PgProjection) (e : StoredEvent) : Prop :=
  e.sequenceNumber ≤ s.service.checkpoints.getCheckpoint p.checkpointName "pg"

/-- A position has shares. -/
def IsOpen (s : LeaderboardService) (k : PositionKey) : Prop :=
  ∃ row, s.service.stores.db.position.lookup k = some row ∧ row.shares > 0

/-- An event that the marker has not read will mark an account. -/
def AccountAhead (s : LeaderboardService) (a : String) : Prop :=
  ∃ e ∈ s.service.eventStore, ¬ s.HasRead .leaderboardMarker e ∧ a ∈ markedAccounts e.counted

/-- An event that the marker has not read will mark a vault. -/
def VaultAhead (s : LeaderboardService) (k : VaultKey) : Prop :=
  ∃ e ∈ s.service.eventStore, ¬ s.HasRead .leaderboardMarker e ∧ markedVault ext e.counted = some k

/-- An account is marked, or will be. -/
def AccountDue (s : LeaderboardService) (a : String) : Prop :=
  a ∈ s.board.dirtyAccount ∨ s.AccountAhead a

/-- A vault is marked, or will be. -/
def VaultDue (s : LeaderboardService) (k : VaultKey) : Prop :=
  k ∈ s.board.dirtyVault ∨ s.VaultAhead ext k

/-- An account is due to be computed: for itself, or for a vault it has shares
in. -/
def Due (s : LeaderboardService) (a : String) : Prop :=
  s.AccountDue a ∨ ∃ k : PositionKey, k.accountId = a ∧ s.IsOpen k ∧ s.VaultDue ext k.vault

/-! ## What the tables lack -/

/-- The marker has read an event that another worker has still to apply. -/
structure Lags (s : LeaderboardService) (p : PgProjection) (e : StoredEvent) : Prop where
  mem : p ∈ ps
  stored : e ∈ s.service.eventStore
  marked : s.HasRead .leaderboardMarker e
  unread : ¬ s.HasRead p e

/-- An event moves the price of a vault: it changes it, or it is what gives the
vault a row. -/
def MovesPrice (s : LeaderboardService) (k : VaultKey) (e : StoredEvent) : Prop :=
  (vaultLedger ext).concerns k e.counted = true
    ∧ (markedVault ext e.counted = some k ∨ s.service.stores.db.vault.lookup k = none)

/-- The positions of an account lack an event that the marker has read. -/
def PositionLags (s : LeaderboardService) (a : String) : Prop :=
  ∃ p e, s.Lags ps p e ∧ ∃ k : PositionKey, k.accountId = a ∧ ownsPositionRow ext p k = true
    ∧ (positionLedger ext).concerns k e.counted = true

/-- The price of a vault an account has shares in lacks an event that the marker
has read. -/
def PriceLags (s : LeaderboardService) (a : String) : Prop :=
  ∃ p e, s.Lags ps p e ∧ ∃ k : PositionKey, k.accountId = a ∧ s.IsOpen k
    ∧ ownsVaultRow ext p k.vault = true ∧ s.MovesPrice ext k.vault e

/-- **No mark is consumed too early**: an account that is computed from tables
that lack an event of its positions, or of its prices, stays due; and an account
with shares in a vault that is drained is found, or stays due. -/
def Safe (s : LeaderboardService) : Action → Prop
  | .recompute _ => ∀ a ∈ s.remaining.take pnlBatchSize,
      (s.PositionLags ext ps a → s.AccountDue a) ∧ (s.PriceLags ext ps a → s.Due ext a)
  | .drain _ => ∀ k : PositionKey, s.IsOpen k → k.vault ∈ s.board.dirtyVault →
      k.accountId ∈ s.dirtySet ∨ s.AccountAhead k.accountId
        ∨ ∃ k' : PositionKey, k'.accountId = k.accountId ∧ s.IsOpen k' ∧ s.VaultAhead ext k'.vault
  | _ => True

/-- An account appeared in a deposit or in a redemption. -/
def Appears (s : LeaderboardService) (a : String) : Prop :=
  ∃ e ∈ s.service.eventStore, a ∈ markedAccounts e.counted

/-! ## What events concern -/

variable {ext ps} {s s' : LeaderboardService} {a : String} {k : PositionKey} {p : PgProjection}
  {w : PgWorker} {e : StoredEvent}

/-- The account of a position is marked by the events of the position. -/
theorem mem_markedAccounts {e : ParsedEvent} (h : (positionLedger ext).concerns k e = true) :
    k.accountId ∈ markedAccounts e := by
  cases e with
  | deposited metadata data | redeemed metadata data =>
    obtain rfl := Option.some.inj (of_decide_eq_true h)
    exact Finset.mem_insert_of_mem (Finset.mem_singleton_self _)
  | _ => exact absurd (of_decide_eq_true h) (Option.some_ne_none _).symm

/-- An event of a position is one of its vault, and gives the vault a row. -/
theorem concerns_vault {e : ParsedEvent} (h : (positionLedger ext).concerns k e = true) :
    (vaultLedger ext).concerns k.vault e = true ∧ ∀ r, (vaultLedger ext).step r e ≠ none := by
  cases e with
  | deposited metadata data | redeemed metadata data =>
    obtain rfl := Option.some.inj (of_decide_eq_true h)
    exact ⟨decide_eq_true rfl, fun r => Option.some_ne_none _⟩
  | _ => exact absurd (of_decide_eq_true h) (Option.some_ne_none _).symm

/-- An event of a vault that has a row moves its price only if it marks the
vault. -/
theorem currentSharePrice_step {r : Option VaultRow} {e : ParsedEvent} {k : VaultKey}
    (hk : (vaultLedger ext).concerns k e = true) (hmark : markedVault ext e ≠ some k)
    (h : r ≠ none) :
    ((vaultLedger ext).step r e).map VaultRow.currentSharePrice
      = r.map VaultRow.currentSharePrice := by
  obtain ⟨row, rfl⟩ := Option.ne_none_iff_exists'.mp h
  cases e with
  | sharePriceChanged metadata data => exact absurd (of_decide_eq_true hk) hmark
  | _ => rfl

/-- The marker reads what marks an account. -/
theorem wants_of_markedAccounts (h : a ∈ markedAccounts e.counted) :
    EventReader.wants (PgProjection.leaderboardMarker.eventTypes.map EventType.asStr) e = true := by
  have htype : e.counted.type? = some .deposited ∨ e.counted.type? = some .redeemed := by
    cases hcounted : e.counted <;> rw [hcounted] at h
    case deposited => exact .inl rfl
    case redeemed => exact .inr rfl
    all_goals exact absurd h (Finset.notMem_empty a)
  obtain htype | htype := htype
  · exact StoredEvent.wants_of_counted htype (by decide)
  · exact StoredEvent.wants_of_counted htype (by decide)

/-- The marker reads what marks a vault. -/
theorem wants_of_markedVault {k : VaultKey} (h : markedVault ext e.counted = some k) :
    EventReader.wants (PgProjection.leaderboardMarker.eventTypes.map EventType.asStr) e = true := by
  have htype : e.counted.type? = some .sharePriceChanged := by
    cases hcounted : e.counted <;> rw [hcounted] at h
    case sharePriceChanged => rfl
    all_goals cases h
  exact StoredEvent.wants_of_counted htype (by decide)

/-! ## What a worker has read -/

/-- A worker has not read what it reads now. -/
theorem not_hasRead_of_mem (h : e ∈ w.readBatch s.service) : ¬ s.HasRead w.projection e :=
  not_le.mpr (EventReader.mem_of_mem_readBatchMulti h).2.2

/-- What a worker has read, it has read after any iteration. -/
theorem hasRead_mono (h : w.iterate ext s.service = some s'.service) (hread : s.HasRead p e) :
    s'.HasRead p e := by
  obtain ⟨-, -, last, hlast, hmark⟩ := PgWorker.iterate_eq_some h
  unfold HasRead at hread ⊢
  rw [hmark]
  by_cases hname : p.checkpointName = w.projection.checkpointName
  · rw [if_pos hname]
    have hpast := not_hasRead_of_mem (List.mem_of_mem_getLast? hlast)
    rw [hname] at hread
    exact hread.trans (not_le.mp hpast).le
  · rwa [if_neg hname]

/-- **An iteration reads its batch, and nothing else that a worker wants.** -/
theorem hasRead_or_mem (hnames : ReadModel.NamesDistinct ps) (hp : p ∈ ps)
    (hw : w.projection ∈ ps)
    (hord : Feed.InOrder StoredEvent.sequenceNumber s.service.eventStore)
    (h : w.iterate ext s.service = some s'.service) (he : e ∈ s.service.eventStore)
    (hwants : EventReader.wants (p.eventTypes.map EventType.asStr) e = true)
    (hread : s'.HasRead p e) :
    s.HasRead p e ∨ p = w.projection ∧ e ∈ w.readBatch s.service := by
  obtain ⟨-, -, last, hlast, hmark⟩ := PgWorker.iterate_eq_some h
  unfold HasRead at hread ⊢
  rw [hmark] at hread
  by_cases hname : p.checkpointName = w.projection.checkpointName
  · rw [if_pos hname] at hread
    obtain rfl := hnames p hp w.projection hw hname
    refine or_iff_not_imp_left.mpr fun hunread => ⟨rfl, ?_⟩
    exact EventReader.mem_readBatchMulti_of_le_getLast
      (fun e he f hf hseq => hord.eq_of_pos_eq he hf hseq) he hwants (not_le.mp hunread) hlast hread
  · rw [if_neg hname] at hread
    exact .inl hread

/-! ## The invariant -/

/-- An account that is out of date waits: it is left to the running cycle, or
due. -/
def Waits (s : LeaderboardService) (ext : Externals) (a : String) : Prop :=
  a ∈ s.remaining ∨ s.Due ext a

/-- What is so as long as no mark is consumed too early. -/
structure Ok (ext : Externals) (ps : List PgProjection) (s : LeaderboardService) : Prop where
  inOrder : Feed.InOrder StoredEvent.sequenceNumber s.service.eventStore
  mark_le : ∀ name, s.service.checkpoints.getCheckpoint name "pg" = 0
    ∨ ∃ e ∈ s.service.eventStore,
      s.service.checkpoints.getCheckpoint name "pg" = e.sequenceNumber
  /-- A vault has a row once a deposit or a redemption in it was applied. -/
  vault_row : ∀ p ∈ ps, ∀ e ∈ s.service.eventStore, ∀ k : PositionKey, s.HasRead p e →
    ownsVaultRow ext p k.vault = true → (positionLedger ext).concerns k e.counted = true →
      s.service.stores.db.vault.lookup k.vault ≠ none
  /-- A position has a row only if there is an event of it. -/
  position_event : ∀ k, s.service.stores.db.position.lookup k ≠ none →
    ∃ e ∈ s.service.eventStore, (positionLedger ext).concerns k e.counted = true
  /-- An account that is out of date waits. -/
  appears : ∀ a, s.Appears a → s.board.UpToDate s.service.stores.db a ∨ s.Waits ext a
  /-- An account whose positions lag waits, for itself. -/
  position_lags : ∀ a, s.PositionLags ext ps a → a ∈ s.remaining ∨ s.AccountDue a
  /-- An account whose prices lag waits. -/
  price_lags : ∀ a, s.PriceLags ext ps a → s.Waits ext a

/-- The account of an open position in a vault that has no row yet waits, as
long as the vault is maintained. -/
theorem Ok.waits_of_no_row (h : s.Ok ext ps) (hp : p ∈ ps) (hopen : s.IsOpen k)
    (howns : ownsVaultRow ext p k.vault = true)
    (hrow : s.service.stores.db.vault.lookup k.vault = none) : s.Waits ext k.accountId := by
  obtain ⟨row, hlook, -⟩ := id hopen
  obtain ⟨e, he, hk⟩ := h.position_event k (hlook ▸ Option.some_ne_none row)
  by_cases hmarked : s.HasRead .leaderboardMarker e
  · refine h.price_lags _ ⟨p, e, ⟨hp, he, hmarked, fun hread => ?_⟩, k, rfl, hopen, howns,
      (concerns_vault hk).1, .inr hrow⟩
    exact h.vault_row p hp e he k hread howns hk hrow
  · exact .inr (.inl (.inr ⟨e, he, hmarked, mem_markedAccounts hk⟩))

/-- **The accounts of a vault whose price is about to move wait.** -/
theorem Ok.waits_of_movesPrice (h : s.Ok ext ps) (hp : p ∈ ps) (hopen : s.IsOpen k)
    (howns : ownsVaultRow ext p k.vault = true) (he : e ∈ s.service.eventStore)
    (hunread : ¬ s.HasRead p e) (hmoves : s.MovesPrice ext k.vault e) :
    s.Waits ext k.accountId := by
  by_cases hmarked : s.HasRead .leaderboardMarker e
  · exact h.price_lags _ ⟨p, e, ⟨hp, he, hmarked, hunread⟩, k, rfl, hopen, howns, hmoves⟩
  · obtain hmark | hrow := hmoves.2
    · exact .inr (.inr ⟨k, rfl, hopen, .inr ⟨e, he, hmarked, hmark⟩⟩)
    · exact h.waits_of_no_row hp hopen howns hrow

/-- An account whose positions are about to change waits, for itself. -/
theorem Ok.waits_of_position (h : s.Ok ext ps) (hp : p ∈ ps)
    (howns : ownsPositionRow ext p k = true) (he : e ∈ s.service.eventStore)
    (hunread : ¬ s.HasRead p e) (hk : (positionLedger ext).concerns k e.counted = true) :
    k.accountId ∈ s.remaining ∨ s.AccountDue k.accountId := by
  by_cases hmarked : s.HasRead .leaderboardMarker e
  · exact h.position_lags _ ⟨p, e, ⟨hp, he, hmarked, hunread⟩, k, rfl, howns, hk⟩
  · exact .inr (.inr ⟨e, he, hmarked, mem_markedAccounts hk⟩)

/-! ## What a batch does to the tables -/

/-- The events a worker applies, as they count. -/
theorem processed_eq (h : w.iterate ext s.service = some s'.service) :
    w.projection.processParsedBatch ext s.service.stores
      ((w.readBatch s.service).map StoredEvent.counted) = .ok s'.service.stores := by
  rw [← ReadModel.parseBatchOnce_readBatch]
  exact (PgWorker.iterate_eq_some h).2.1

/-- **The row of a position changes only at an event of the position.** -/
theorem position_eq_or (hext : ext.Lawful) (h : w.iterate ext s.service = some s'.service)
    (k : PositionKey) :
    s'.service.stores.db.position.lookup k = s.service.stores.db.position.lookup k
      ∨ ∃ e ∈ w.readBatch s.service, ownsPositionRow ext w.projection k = true
        ∧ (positionLedger ext).concerns k e.counted = true := by
  rw [position_processParsedBatch hext (processed_eq h)]
  by_cases howns : ownsPositionRow ext w.projection k = true
  · refine or_iff_not_imp_right.mpr fun hnone => ?_
    rw [if_pos howns]
    refine Ledger.apply_eq_self _ fun e' he' hk => ?_
    obtain ⟨e, he, rfl⟩ := List.mem_map.mp he'
    exact absurd ⟨e, he, howns, hk⟩ hnone
  · exact .inl (if_neg howns)

/-- **The price of a vault changes only at an event that moves it.** -/
theorem joinedSharePrice_eq_or (hext : ext.Lawful)
    (h : w.iterate ext s.service = some s'.service) (k : VaultKey) :
    joinedSharePrice s'.service.stores.db k = joinedSharePrice s.service.stores.db k
      ∨ ∃ e ∈ w.readBatch s.service, ownsVaultRow ext w.projection k = true
        ∧ s.MovesPrice ext k e := by
  have hprice : ∀ db : Db, joinedSharePrice db k
      = (vaultRow db.vault k).map VaultRow.currentSharePrice := fun db => by
    unfold joinedSharePrice vaultRow
    rw [Option.map_map]
    rfl
  rw [hprice, hprice, vaultRow_processParsedBatch hext (processed_eq h)]
  by_cases howns : ownsVaultRow ext w.projection k = true
  · refine or_iff_not_imp_right.mpr fun hnone => ?_
    rw [if_pos howns]
    have hquiet : ∀ e' ∈ (w.readBatch s.service).map StoredEvent.counted,
        (vaultLedger ext).concerns k e' = true →
          markedVault ext e' ≠ some k ∧ s.service.stores.db.vault.lookup k ≠ none := by
      intro e' he' hk
      obtain ⟨e, he, rfl⟩ := List.mem_map.mp he'
      exact not_or.mp fun hmoves => hnone ⟨e, he, howns, hk, hmoves⟩
    cases hrow : vaultRow s.service.stores.db.vault k with
    | none =>
      -- without a row, any event of the vault would give it one
      rw [Ledger.apply_eq_self _ fun e he hk =>
        absurd (Option.map_eq_none_iff.mp hrow) (hquiet e he hk).2]
    | some row =>
      refine ((vaultLedger ext).apply_invariant (P := fun r =>
        r ≠ none ∧ r.map VaultRow.currentSharePrice = some row.currentSharePrice)
        (fun e he hk r hr => ?_) ⟨Option.some_ne_none row, rfl⟩).2
      exact ⟨vaultLedger_step_ne_none e hr.1,
        (currentSharePrice_step hk (hquiet e he hk).1 hr.1).trans hr.2⟩
  · exact .inl (congrArg _ (if_neg howns))

/-- A vault that has a row keeps it, and one that is given one has it. -/
theorem vault_row_of_batch (hext : ext.Lawful) (h : w.iterate ext s.service = some s'.service)
    {k : VaultKey}
    (hrow : s.service.stores.db.vault.lookup k ≠ none
      ∨ ownsVaultRow ext w.projection k = true ∧ ∃ e ∈ w.readBatch s.service,
        (vaultLedger ext).concerns k e.counted = true
          ∧ ∀ r, (vaultLedger ext).step r e.counted ≠ none) :
    s'.service.stores.db.vault.lookup k ≠ none := by
  have hiff : ∀ db : Db, vaultRow db.vault k ≠ none ↔ db.vault.lookup k ≠ none := fun db =>
    not_congr Option.map_eq_none_iff
  rw [← hiff, vaultRow_processParsedBatch hext (processed_eq h)]
  rw [← hiff] at hrow
  split
  · refine (vaultLedger ext).apply_of_mem (P := fun r => r ≠ none)
      (fun r e hr => vaultLedger_step_ne_none e hr) (hrow.imp_right ?_)
    rintro ⟨-, e, he, hk, hstep⟩
    exact ⟨_, List.mem_map_of_mem he, hk, hstep⟩
  · next howns => exact hrow.resolve_right fun hown => howns hown.1

/-! ## What a batch keeps -/

section Batch

variable (hext : ext.Lawful) (hnames : ReadModel.NamesDistinct ps)
  (hmarker : .leaderboardMarker ∈ ps) (hw : w.projection ∈ ps)
  (hiter : w.iterate ext s.service = some s'.service) (hboard : s'.board = s.markBatch ext w)
  (hremaining : s'.remaining = s.remaining)

include hnames hmarker hw hiter hboard

/-- An account that is due is due after any batch. -/
theorem accountDue_batch (hord : Feed.InOrder StoredEvent.sequenceNumber s.service.eventStore)
    (h : s.AccountDue a) : s'.AccountDue a := by
  have hstore := (PgWorker.iterate_eq_some hiter).1
  unfold AccountDue
  rw [hboard]
  unfold markBatch
  obtain hdirty | ⟨e, he, hunread, ha⟩ := h
  · refine .inl ?_
    split
    · exact mem_dirtyAccount_processParsedBatch.mpr (.inr hdirty)
    · exact hdirty
  · by_cases hread : s'.HasRead .leaderboardMarker e
    · -- the marker has just read the event
      obtain hread | ⟨hp, hmem⟩ := hasRead_or_mem hnames hmarker hw hord hiter he
        (wants_of_markedAccounts ha) hread
      · exact absurd hread hunread
      · rw [if_pos hp.symm, ReadModel.parseBatchOnce_readBatch]
        exact .inl (mem_dirtyAccount_processParsedBatch.mpr
          (.inl ⟨_, List.mem_map_of_mem hmem, ha⟩))
    · exact .inr ⟨e, hstore ▸ he, hread, ha⟩

/-- A vault that is due is due after any batch. -/
theorem vaultDue_batch {k : VaultKey}
    (hord : Feed.InOrder StoredEvent.sequenceNumber s.service.eventStore)
    (h : s.VaultDue ext k) : s'.VaultDue ext k := by
  have hstore := (PgWorker.iterate_eq_some hiter).1
  unfold VaultDue
  rw [hboard]
  unfold markBatch
  obtain hdirty | ⟨e, he, hunread, hk⟩ := h
  · refine .inl ?_
    split
    · exact mem_dirtyVault_processParsedBatch.mpr (.inr hdirty)
    · exact hdirty
  · by_cases hread : s'.HasRead .leaderboardMarker e
    · obtain hread | ⟨hp, hmem⟩ := hasRead_or_mem hnames hmarker hw hord hiter he
        (wants_of_markedVault hk) hread
      · exact absurd hread hunread
      · rw [if_pos hp.symm, ReadModel.parseBatchOnce_readBatch]
        exact .inl (mem_dirtyVault_processParsedBatch.mpr
          (.inl ⟨_, List.mem_map_of_mem hmem, hk⟩))
    · exact .inr ⟨e, hstore ▸ he, hread, hk⟩

include hext hremaining

/-- The account of a position that a batch changed waits. -/
theorem Ok.waits_of_changed (h : s.Ok ext ps)
    (hne : s'.service.stores.db.position.lookup k ≠ s.service.stores.db.position.lookup k) :
    k.accountId ∈ s'.remaining ∨ s'.AccountDue k.accountId := by
  obtain ⟨e, he, howns, hk⟩ := (position_eq_or hext hiter k).resolve_left hne
  rw [hremaining]
  refine (h.waits_of_position hw howns (EventReader.mem_of_mem_readBatchMulti he).1
    (not_hasRead_of_mem he) hk).imp_right ?_
  exact accountDue_batch hnames hmarker hw hiter hboard h.inOrder

/-- A position that is open after a batch was open before, or its account
waits. -/
theorem Ok.isOpen_or_waits (h : s.Ok ext ps) (hopen : s'.IsOpen k) :
    s.IsOpen k ∨ s'.Waits ext k.accountId := by
  by_cases heq : s'.service.stores.db.position.lookup k = s.service.stores.db.position.lookup k
  · unfold IsOpen at hopen
    rw [heq] at hopen
    exact .inl hopen
  · exact .inr ((h.waits_of_changed hext hnames hmarker hw hiter hboard hremaining heq).imp_right
      .inl)

/-- **An account that waits does so after any batch.** -/
theorem Ok.waits_batch (h : s.Ok ext ps) (hwaits : s.Waits ext a) : s'.Waits ext a := by
  obtain hleft | hdue | ⟨k, rfl, hopen, hdue⟩ := hwaits
  · exact .inl (hremaining ▸ hleft)
  · exact .inr (.inl (accountDue_batch hnames hmarker hw hiter hboard h.inOrder hdue))
  · by_cases heq : s'.service.stores.db.position.lookup k = s.service.stores.db.position.lookup k
    · refine .inr (.inr ⟨k, rfl, ?_,
        vaultDue_batch hnames hmarker hw hiter hboard h.inOrder hdue⟩)
      unfold IsOpen
      rwa [heq]
    · exact (h.waits_of_changed hext hnames hmarker hw hiter hboard hremaining heq).imp_right .inl

/-- **An account that is up to date stays so, or waits.** -/
theorem Ok.upToDate_batch (h : s.Ok ext ps)
    (hfresh : s.board.UpToDate s.service.stores.db a) :
    s'.board.UpToDate s'.service.stores.db a ∨ s'.Waits ext a := by
  have hrows : s'.board.accountPnlState = s.board.accountPnlState := by
    rw [hboard]
    unfold markBatch
    split
    · exact accountPnlState_processParsedBatch
    · rfl
  by_cases hpositions : ∀ k : PositionKey, k.accountId = a →
      s'.service.stores.db.position.lookup k = s.service.stores.db.position.lookup k
  · by_cases hprices : ∀ (k : PositionKey) row, k.accountId = a →
        s.service.stores.db.position.lookup k = some row → row.shares > 0 →
          joinedSharePrice s'.service.stores.db k.vault
            = joinedSharePrice s.service.stores.db k.vault
    · obtain ⟨row, hrow, hshows⟩ := hfresh
      refine .inl ⟨row, hrows ▸ hrow, ?_⟩
      rwa [computeAccountPnl_congr hpositions hprices]
    · -- the price of a vault the account has shares in has moved
      push Not at hprices
      obtain ⟨k, row, rfl, hlook, hshares, hne⟩ := hprices
      obtain ⟨e, he, howns, hmoves⟩ := (joinedSharePrice_eq_or hext hiter k.vault).resolve_left hne
      refine .inr (h.waits_batch hext hnames hmarker hw hiter hboard hremaining ?_)
      exact h.waits_of_movesPrice hw ⟨row, hlook, hshares⟩ howns
        (EventReader.mem_of_mem_readBatchMulti he).1 (not_hasRead_of_mem he) hmoves
  · push Not at hpositions
    obtain ⟨k, rfl, hne⟩ := hpositions
    exact .inr ((h.waits_of_changed hext hnames hmarker hw hiter hboard hremaining hne).imp_right
      .inl)

/-- **A batch keeps the invariant**, whichever worker applies it. -/
theorem Ok.batch (h : s.Ok ext ps) : s'.Ok ext ps := by
  obtain ⟨hstore, -, last, hlast, hmark⟩ := PgWorker.iterate_eq_some hiter
  have hmono : ∀ p e, s.HasRead p e → s'.HasRead p e := fun p e => hasRead_mono hiter
  have hwaits : ∀ a, s.Waits ext a → s'.Waits ext a := fun a =>
    h.waits_batch hext hnames hmarker hw hiter hboard hremaining
  constructor
  case inOrder => rw [hstore]; exact h.inOrder
  case mark_le =>
    intro name
    rw [hmark, hstore]
    split
    · exact .inr ⟨last, (EventReader.mem_of_mem_readBatchMulti
        (List.mem_of_mem_getLast? hlast)).1, rfl⟩
    · exact h.mark_le name
  case vault_row =>
    intro p hp e he k hread howns hk
    rw [hstore] at he
    refine vault_row_of_batch hext hiter ?_
    have hwants : EventReader.wants (p.eventTypes.map EventType.asStr) e = true :=
      (vaultRows hext).wants_of_owns (w := ⟨p, 0⟩) howns (concerns_vault hk).1
    obtain hread | ⟨rfl, hmem⟩ := hasRead_or_mem hnames hp hw h.inOrder hiter he hwants hread
    · exact .inl (h.vault_row p hp e he k hread howns hk)
    · exact .inr ⟨howns, e, hmem, concerns_vault hk⟩
  case position_event =>
    intro k hk
    rw [hstore]
    obtain heq | ⟨e, he, -, hconcerns⟩ := position_eq_or hext hiter k
    · exact h.position_event k (heq ▸ hk)
    · exact ⟨e, (EventReader.mem_of_mem_readBatchMulti he).1, hconcerns⟩
  case appears =>
    intro a ha
    unfold Appears at ha
    rw [hstore] at ha
    obtain hfresh | hwait := h.appears a ha
    · exact h.upToDate_batch hext hnames hmarker hw hiter hboard hremaining hfresh
    · exact .inr (hwaits a hwait)
  case position_lags =>
    rintro a ⟨p, e, hlags, k, rfl, howns, hk⟩
    rw [hremaining]
    refine (h.waits_of_position hlags.mem howns (hstore ▸ hlags.stored)
      (fun hread => hlags.unread (hmono p e hread)) hk).imp_right ?_
    exact accountDue_batch hnames hmarker hw hiter hboard h.inOrder
  case price_lags =>
    rintro a ⟨p, e, hlags, k, rfl, hopen, howns, hk, hmoves⟩
    obtain hopen | hwait := h.isOpen_or_waits hext hnames hmarker hw hiter hboard hremaining hopen
    · refine hwaits _ (h.waits_of_movesPrice hlags.mem hopen howns (hstore ▸ hlags.stored)
        (fun hread => hlags.unread (hmono p e hread)) ⟨hk, hmoves.imp_right fun hrow => ?_⟩)
      -- a row is never deleted
      by_contra hne
      exact vault_row_of_batch hext hiter (.inl hne) hrow
    · exact hwait

end Batch

/-! ## What the other transactions keep -/

/-- New events have been read by nobody. -/
theorem Ok.not_hasRead_new (h : s.Ok ext ps) {events : List StoredEvent}
    (hord : Feed.InOrder StoredEvent.sequenceNumber (s.service.eventStore ++ events))
    (hpos : ∀ e ∈ events, 0 < e.sequenceNumber) (he : e ∈ events) : ¬ s.HasRead p e := by
  unfold HasRead
  obtain hzero | ⟨f, hf, hmark⟩ := h.mark_le p.checkpointName
  · rw [hzero]
    exact not_le.mpr (hpos e he)
  · rw [hmark]
    exact not_le.mpr ((List.pairwise_append.mp hord).2.2 f hf e he)

/-- The growth of the event store keeps the invariant. -/
theorem Ok.grow (h : s.Ok ext ps) {events : List StoredEvent}
    (hord : Feed.InOrder StoredEvent.sequenceNumber (s.service.eventStore ++ events))
    (hpos : ∀ e ∈ events, 0 < e.sequenceNumber) :
    Ok ext ps { s with
      service := { s.service with eventStore := s.service.eventStore ++ events } } := by
  -- no worker has read a new event
  have hold : ∀ p e, e ∈ s.service.eventStore ++ events → s.HasRead p e →
      e ∈ s.service.eventStore := fun p e he hread =>
    (List.mem_append.mp he).resolve_right fun hnew => h.not_hasRead_new hord hpos hnew hread
  have haccount : ∀ a, s.AccountDue a → AccountDue { s with
      service := { s.service with eventStore := s.service.eventStore ++ events } } a := fun a =>
    Or.imp_right fun ⟨e, he, hrest⟩ => ⟨e, List.mem_append_left _ he, hrest⟩
  have hwaits : ∀ a, s.Waits ext a → Waits { s with
      service := { s.service with eventStore := s.service.eventStore ++ events } } ext a :=
    fun a => Or.imp_right <| Or.imp (haccount a) fun ⟨k, hk, hopen, hdue⟩ =>
      ⟨k, hk, hopen, hdue.imp_right fun ⟨e, he, hrest⟩ => ⟨e, List.mem_append_left _ he, hrest⟩⟩
  constructor
  case inOrder => exact hord
  case mark_le =>
    exact fun name => (h.mark_le name).imp_right fun ⟨e, he, hmark⟩ =>
      ⟨e, List.mem_append_left _ he, hmark⟩
  case vault_row =>
    exact fun p hp e he k hread => h.vault_row p hp e (hold p e he hread) k hread
  case position_event =>
    intro k hk
    obtain ⟨e, he, hconcerns⟩ := h.position_event k hk
    exact ⟨e, List.mem_append_left _ he, hconcerns⟩
  case appears =>
    rintro a ⟨e, he, ha⟩
    obtain he | he := List.mem_append.mp he
    · exact (h.appears a ⟨e, he, ha⟩).imp_right (hwaits a)
    · -- the marker will read the event the account appears in
      exact .inr (.inr (.inl (.inr ⟨e, List.mem_append_right _ he,
        h.not_hasRead_new hord hpos he, ha⟩)))
  case position_lags =>
    rintro a ⟨p, e, ⟨hp, he, hmarked, hunread⟩, hk⟩
    exact (h.position_lags a ⟨p, e, ⟨hp, hold _ e he hmarked, hmarked, hunread⟩, hk⟩).imp_right
      (haccount a)
  case price_lags =>
    rintro a ⟨p, e, ⟨hp, he, hmarked, hunread⟩, hk⟩
    exact hwaits a (h.price_lags a ⟨p, e, ⟨hp, hold _ e he hmarked, hmarked, hunread⟩, hk⟩)

/-- **A drain that finds the accounts of its vaults keeps the invariant.** -/
theorem Ok.drain (h : s.Ok ext ps) {order : List String} (hidle : s.remaining = [])
    (horder : order.toFinset = s.dirtySet) (hsafe : s.Safe ext ps (.drain order)) :
    Ok ext ps { s with
      board := (drainDirtyAccounts (drainDirtyVaults s.board).2).2
      remaining := order } := by
  have hfound : ∀ a, a ∈ s.dirtySet → a ∈ order := fun a ha => by
    rwa [← horder, List.mem_toFinset] at ha
  have haccount : ∀ a, s.AccountDue a → a ∈ order ∨ s.AccountAhead a := fun a =>
    Or.imp_left fun hdirty => hfound a (mem_accountSet.mpr (.inl (Finmap.mem_keys.mpr hdirty)))
  have hwaits : ∀ a, s.Waits ext a → Waits { s with
      board := (drainDirtyAccounts (drainDirtyVaults s.board).2).2
      remaining := order } ext a := by
    rintro a (hleft | hdue | ⟨k, rfl, hopen, hdirty | hahead⟩)
    · rw [hidle] at hleft
      exact absurd hleft List.not_mem_nil
    · exact (haccount a hdue).imp_right fun hahead => .inl (.inr hahead)
    · -- the drain finds the holder, or whoever made its mark will mark it again
      obtain hmem | hahead | ⟨k', hk', hopen', hahead⟩ := hsafe k hopen hdirty
      · exact .inl (hfound _ hmem)
      · exact .inr (.inl (.inr hahead))
      · exact .inr (.inr ⟨k', hk', hopen', .inr hahead⟩)
    · exact .inr (.inr ⟨k, rfl, hopen, .inr hahead⟩)
  constructor
  case inOrder => exact h.inOrder
  case mark_le => exact h.mark_le
  case vault_row => exact h.vault_row
  case position_event => exact h.position_event
  case appears => exact fun a ha => (h.appears a ha).imp_right (hwaits a)
  case position_lags =>
    rintro a ⟨p, e, ⟨hp, he, hmarked, hunread⟩, hk⟩
    have hdue := h.position_lags a ⟨p, e, ⟨hp, he, hmarked, hunread⟩, hk⟩
    rw [hidle] at hdue
    exact (haccount a (hdue.resolve_left List.not_mem_nil)).imp_right .inr
  case price_lags =>
    rintro a ⟨p, e, ⟨hp, he, hmarked, hunread⟩, hk⟩
    exact hwaits a (h.price_lags a ⟨p, e, ⟨hp, he, hmarked, hunread⟩, hk⟩)

/-- **A chunk that leaves due what it computes too early keeps the
invariant.** -/
theorem Ok.recompute (h : s.Ok ext ps) {now : String → ℤ}
    (hsafe : s.Safe ext ps (.recompute now)) :
    Ok ext ps { s with
      board := refreshChunk s.service.stores.db now s.board (s.remaining.take pnlBatchSize)
      remaining := s.remaining.drop pnlBatchSize } := by
  -- computing an account touches no mark
  obtain ⟨hdirty, hdirtyVault⟩ := refreshChunk_marks s.service.stores.db now s.board
    (s.remaining.take pnlBatchSize)
  have hleft : ∀ a, a ∈ s.remaining →
      a ∈ s.remaining.take pnlBatchSize ∨ a ∈ s.remaining.drop pnlBatchSize := fun a ha => by
    rwa [← List.mem_append, List.take_append_drop]
  have haccount : ∀ a, s.AccountDue a → AccountDue { s with
      board := refreshChunk s.service.stores.db now s.board (s.remaining.take pnlBatchSize)
      remaining := s.remaining.drop pnlBatchSize } a := fun a => by
    unfold AccountDue
    rw [hdirty]
    exact id
  have hdue : ∀ a, s.Due ext a → Due ext { s with
      board := refreshChunk s.service.stores.db now s.board (s.remaining.take pnlBatchSize)
      remaining := s.remaining.drop pnlBatchSize } a := fun a =>
    Or.imp (haccount a) fun ⟨k, hk, hopen, hvault⟩ => ⟨k, hk, hopen, by
      unfold VaultDue at hvault ⊢
      rwa [hdirtyVault]⟩
  constructor
  case inOrder => exact h.inOrder
  case mark_le => exact h.mark_le
  case vault_row => exact h.vault_row
  case position_event => exact h.position_event
  case appears =>
    intro a ha
    obtain hfresh | hmem | hwait := h.appears a ha
    · exact .inl (upToDate_refreshChunk (.inr hfresh))
    · exact (hleft a hmem).imp (fun hchunk => upToDate_refreshChunk (.inl hchunk)) .inl
    · exact .inr (.inr (hdue a hwait))
  case position_lags =>
    rintro a ⟨p, e, ⟨hp, he, hmarked, hunread⟩, hk⟩
    have hlags : s.PositionLags ext ps a := ⟨p, e, ⟨hp, he, hmarked, hunread⟩, hk⟩
    obtain hmem | hwait := h.position_lags a hlags
    · -- an account that is computed too early must be due once more
      obtain hchunk | hrest := hleft a hmem
      · exact .inr (haccount a ((hsafe a hchunk).1 hlags))
      · exact .inl hrest
    · exact .inr (haccount a hwait)
  case price_lags =>
    rintro a ⟨p, e, ⟨hp, he, hmarked, hunread⟩, hk⟩
    have hlags : s.PriceLags ext ps a := ⟨p, e, ⟨hp, he, hmarked, hunread⟩, hk⟩
    obtain hmem | hwait := h.price_lags a hlags
    · obtain hchunk | hrest := hleft a hmem
      · exact .inr (hdue a ((hsafe a hchunk).2 hlags))
      · exact .inl hrest
    · exact .inr (hdue a hwait)

/-- **Every safe step keeps the invariant.** -/
theorem Ok.step (hext : ext.Lawful) (hnames : ReadModel.NamesDistinct ps)
    (hmarker : .leaderboardMarker ∈ ps) (h : s.Ok ext ps) {action : Action}
    (hsafe : s.Safe ext ps action) (hstep : s.step ext ps action = some s') : s'.Ok ext ps := by
  cases action with
  | grow events =>
    obtain ⟨⟨hord, hpos⟩, ⟨⟩⟩ := Option.ite_none_right_eq_some.mp hstep
    exact h.grow hord hpos
  | batch w =>
    obtain ⟨hw, hmap⟩ := Option.ite_none_right_eq_some.mp hstep
    obtain ⟨service, hiter, rfl⟩ := Option.map_eq_some_iff.mp hmap
    exact h.batch hext hnames hmarker hw hiter rfl rfl
  | drain order =>
    obtain ⟨⟨hidle, -, horder⟩, ⟨⟩⟩ := Option.ite_none_right_eq_some.mp hstep
    exact h.drain hidle horder hsafe
  | recompute now =>
    cases hremaining : s.remaining with
    | nil => simp [LeaderboardService.step, hremaining] at hstep
    | cons a as =>
      simp only [LeaderboardService.step, hremaining, Option.some.injEq] at hstep
      rw [← hremaining] at hstep
      exact hstep ▸ h.recompute hsafe

/-- Before anything is read, every account that appeared is about to be
marked. -/
theorem ok_start {service : Service} (h : service.Fresh) : Ok ext ps { service } := by
  have hmark : ∀ name, service.checkpoints.getCheckpoint name "pg" = 0 := fun name => by
    rw [h.checkpoints_eq]
    rfl
  have hunread : ∀ p, ∀ e ∈ service.eventStore, ¬ HasRead { service } p e := fun p e he => by
    unfold HasRead
    rw [hmark]
    exact not_le.mpr (h.sequence_pos e he)
  constructor
  case inOrder => exact h.inOrder
  case mark_le => exact fun name => .inl (hmark name)
  case vault_row => exact fun p _ e he _ hread => absurd hread (hunread p e he)
  case position_event =>
    intro k hk
    rw [show service.stores = {} from h.stores_eq] at hk
    exact absurd rfl hk
  case appears =>
    rintro a ⟨e, he, ha⟩
    exact .inr (.inr (.inl (.inr ⟨e, he, hunread _ e he, ha⟩)))
  case position_lags =>
    rintro a ⟨p, e, hlags, -⟩
    exact absurd hlags.marked (hunread _ e hlags.stored)
  case price_lags =>
    rintro a ⟨p, e, hlags, -⟩
    exact absurd hlags.marked (hunread _ e hlags.stored)

/-! ## A cycle that runs when everything is read -/

/-- A cycle that began is over: its chunks were computed, and none is left. -/
structure RunsToCompletion (ext : Externals) (ps : List PgProjection) (order : List String)
    (chunks : List Action) (s s' : LeaderboardService) : Prop where
  chunks_eq : ∀ action ∈ chunks, ∃ now, action = .recompute now
  follows : Run.follow (step ext ps) s (.drain order :: chunks) = some s'
  finished : s'.remaining = []

/-- Computing marks nothing. -/
theorem marks_of_chunks {chunks : List Action}
    (hchunks : ∀ action ∈ chunks, ∃ now, action = .recompute now)
    (h : Run.follow (LeaderboardService.step ext ps) s chunks = some s') :
    s'.service = s.service ∧ s'.board.dirtyAccount = s.board.dirtyAccount
      ∧ s'.board.dirtyVault = s.board.dirtyVault := by
  induction chunks generalizing s with
  | nil =>
    cases h
    exact ⟨rfl, rfl, rfl⟩
  | cons action chunks ih =>
    obtain ⟨now, rfl⟩ := hchunks action List.mem_cons_self
    obtain ⟨s₁, hs₁, hfollow⟩ := Option.bind_eq_some_iff.mp h
    obtain ⟨hservice, haccount, hvault⟩ :=
      ih (fun b hb => hchunks b (List.mem_cons_of_mem _ hb)) hfollow
    rw [hservice, haccount, hvault]
    cases hremaining : s.remaining with
    | nil => simp [LeaderboardService.step, hremaining] at hs₁
    | cons a as =>
      simp only [LeaderboardService.step, hremaining, Option.some.injEq] at hs₁
      subst hs₁
      exact ⟨rfl, refreshChunk_marks _ _ _ _⟩

/-- After a cycle no mark is left, and nothing else was read. -/
theorem RunsToCompletion.marks {order : List String} {chunks : List Action}
    (h : s.RunsToCompletion ext ps order chunks s') :
    s'.service = s.service ∧ (∀ a, a ∉ s'.board.dirtyAccount)
      ∧ ∀ k, k ∉ s'.board.dirtyVault := by
  obtain ⟨s₁, hs₁, hfollow⟩ := Option.bind_eq_some_iff.mp h.follows
  obtain ⟨-, ⟨⟩⟩ := Option.ite_none_right_eq_some.mp hs₁
  obtain ⟨hservice, haccount, hvault⟩ := marks_of_chunks h.chunks_eq hfollow
  refine ⟨hservice, fun a ha => ?_, fun k hk => ?_⟩
  · rw [haccount] at ha
    obtain ⟨hmem, hkeys⟩ := Table.mem_deleteRows_keys.mp ha
    exact hkeys (Finmap.mem_keys.mpr hmem)
  · rw [hvault] at hk
    obtain ⟨hmem, hkeys⟩ := Table.mem_deleteRows_keys.mp hk
    exact hkeys (Finmap.mem_keys.mpr hmem)

/-- **Where everything is read and nothing is marked, every account is up to
date.** -/
theorem Ok.upToDate_of_settled (h : s.Ok ext ps) (hidle : s.remaining = [])
    (haccount : ∀ a, a ∉ s.board.dirtyAccount) (hvault : ∀ k, k ∉ s.board.dirtyVault) {n : ℕ}
    (hdone : (PgWorker.mk .leaderboardMarker n).Done s.service) (ha : s.Appears a) :
    s.board.UpToDate s.service.stores.db a := by
  obtain hfresh | hleft | hdue := h.appears a ha
  · exact hfresh
  · rw [hidle] at hleft
    exact absurd hleft List.not_mem_nil
  · obtain (hdirty | ⟨e, he, hunread, hmark⟩) | ⟨k, -, -, hdirty | ⟨e, he, hunread, hmark⟩⟩ := hdue
    · exact absurd hdirty (haccount a)
    · exact absurd (hdone e he (wants_of_markedAccounts hmark)) hunread
    · exact absurd hdirty (hvault _)
    · exact absurd (hdone e he (wants_of_markedVault hmark)) hunread

/-- The workers the leaderboard is made by. -/
def workerNames : List String :=
  ["leaderboard_marker", "position_tracking", "vault_state", "vault_holders_index"]

/-- **The leaderboard converges** in a schedule that is followed by one further
cycle: if the workers have processed the events before the cycle begins, then
every account is up to date once it is over. -/
def Converges (ext : Externals) (ps : List PgProjection) (service : Service)
    (schedule : List Action) (order : List String) (chunks : List Action) : Prop :=
  ∀ s s', Run.follow (step ext ps) { service } schedule = some s →
    (∀ p ∈ ps, p.name ∈ workerNames → ∃ n, (PgWorker.mk p n).Done s.service) →
    s.RunsToCompletion ext ps order chunks s' →
    ∀ a, s'.Appears a → s'.board.UpToDate s'.service.stores.db a

end LeaderboardService

open LeaderboardService

/-- **The leaderboard converges if no mark is consumed too early.** Whatever
events there are, however workers batch them, and however their batches and the
transactions of the cycles are interleaved: if every account that is computed
from tables that lack one of its events is still due, and every drain finds the
accounts with shares in the vaults it drains, then one further cycle after all is
read leaves every account that appeared with the row that would be computed for
it. -/
theorem leaderboard_converges {ext : Externals} (hext : ext.Lawful) {config : ProjectionsConfig}
    {kgPool : Bool} (hmarker : .leaderboardMarker ∈ config.buildPgProjections kgPool)
    {service : Service} (hfresh : service.Fresh) {schedule chunks : List Action}
    {order : List String}
    (hsafe : Run.EachStep (step ext (config.buildPgProjections kgPool))
      (Safe ext (config.buildPgProjections kgPool)) { service }
      (schedule ++ .drain order :: chunks)) :
    Converges ext (config.buildPgProjections kgPool) service schedule order chunks := by
  intro s s' hs hdone hcycle a ha
  have hrun : Run.follow (step ext (config.buildPgProjections kgPool)) { service }
      (schedule ++ .drain order :: chunks) = some s' := by
    rw [Run.follow_append, hs]
    exact hcycle.follows
  have hok : s'.Ok ext (config.buildPgProjections kgPool) :=
    hsafe.invariant (fun s action s' h hsafe hstep => h.step hext
      (fun p hp q hq => ProjectionsConfig.eq_of_checkpointName_eq hp hq) hmarker hsafe hstep)
      hrun (ok_start hfresh)
  obtain ⟨hservice, haccount, hvault⟩ := hcycle.marks
  obtain ⟨n, hn⟩ := hdone _ hmarker (by decide)
  exact hok.upToDate_of_settled hcycle.finished haccount hvault (hservice ▸ hn) ha

/-! ## A deposit, in two orders -/

/-- A process that runs the workers of the leaderboard, in one shard. -/
def leaderboardConfig : ProjectionsConfig where
  positionTrackingShards := 1
  enabledProjections := workerNames

/-- The workers of that process. -/
def leaderboardWorkers : List PgProjection := leaderboardConfig.buildPgProjections false

/-- The first deposit, which nobody has read. -/
def firstDepositStored : Service := { eventStore := [firstDeposit] }

theorem firstDepositStored_fresh : firstDepositStored.Fresh where
  inOrder := List.pairwise_singleton _ _
  sequence_pos := by decide
  stores_eq := rfl
  checkpoints_eq := rfl

/-- Every worker has read every event. -/
def AllRead (s : LeaderboardService) : Prop :=
  ∀ p ∈ leaderboardWorkers, ∀ e ∈ s.service.eventStore,
    e.sequenceNumber ≤ s.service.checkpoints.getCheckpoint p.checkpointName "pg"

instance (s : LeaderboardService) : Decidable (AllRead s) :=
  inferInstanceAs (Decidable (∀ p ∈ leaderboardWorkers, ∀ e ∈ s.service.eventStore, _))

/-- The marker reads the deposit last, and a cycle follows. -/
def markedLast : List Action :=
  [.batch ⟨.positionTracking 0 1, 500⟩, .batch ⟨.vaultState 0 1, 500⟩,
    .batch ⟨.vaultHoldersIndex, 500⟩, .batch ⟨.leaderboardMarker, 500⟩]

theorem leaderboard_converges_markedLast :
    Converges .exact leaderboardWorkers firstDepositStored markedLast ["0xa"]
        [.recompute fun _ => 0]
      ∧ ((Run.follow (step .exact leaderboardWorkers) { service := firstDepositStored }
          (markedLast ++ [.drain ["0xa"], .recompute fun _ => 0])).map fun s =>
            (s.board.accountPnlState.lookup "0xa").map AccountPnlStateRow.totalDeposits)
        = some (some 10) := by
  refine ⟨leaderboard_converges Externals.exact_lawful (by decide +kernel)
    firstDepositStored_fresh (Run.EachStep.append ?_ fun s hs => ?_), by decide +kernel⟩
  · exact fun _ _ => ⟨trivial, fun _ _ => ⟨trivial, fun _ _ => ⟨trivial, fun _ _ =>
      ⟨trivial, trivial⟩⟩⟩⟩
  · have hrun : (Run.follow (step .exact leaderboardWorkers) { service := firstDepositStored }
        markedLast).map (fun s => (decide (AllRead s), s.board.dirtyVault.keys))
        = some (true, ∅) := by
      decide +kernel
    rw [show Run.follow (step .exact leaderboardWorkers) { service := firstDepositStored }
      markedLast = some s from hs, Option.map_some, Option.some.injEq, Prod.mk.injEq] at hrun
    obtain ⟨hread, hvaults⟩ := hrun
    refine fun s₁ hs₁ => ⟨fun k _ hdirty => ?_, fun s₂ _ => ⟨fun a _ => ?_, trivial⟩⟩
    · -- no vault is marked
      exact absurd (Finmap.mem_keys.mpr hdirty) (hvaults ▸ Finset.notMem_empty _)
    · -- nothing lags
      obtain ⟨-, ⟨⟩⟩ := Option.ite_none_right_eq_some.mp hs₁
      constructor
      · rintro ⟨p, e, hlags, -⟩
        exact absurd (of_decide_eq_true hread p hlags.mem e hlags.stored) hlags.unread
      · rintro ⟨p, e, hlags, -⟩
        exact absurd (of_decide_eq_true hread p hlags.mem e hlags.stored) hlags.unread

/-- The marker reads the deposit first, and a cycle drains the mark and computes
the account before any other worker has read it. -/
def drainedTooEarly : List Action :=
  [.batch ⟨.leaderboardMarker, 500⟩, .drain ["0xa"], .recompute fun _ => 0,
    .batch ⟨.positionTracking 0 1, 500⟩, .batch ⟨.vaultState 0 1, 500⟩,
    .batch ⟨.vaultHoldersIndex, 500⟩]

/-- **The leaderboard need not converge**: the deposits of the account are ten,
and its row says that they are none. -/
theorem drainedTooEarly_diverges :
    ¬ ∀ (ext : Externals), ext.Lawful → ∀ (config : ProjectionsConfig) (kgPool : Bool),
      .leaderboardMarker ∈ config.buildPgProjections kgPool →
      ∀ service : Service, service.Fresh → ∀ schedule order chunks,
        Converges ext (config.buildPgProjections kgPool) service schedule order chunks := by
  intro h
  have hmarker : .leaderboardMarker ∈ leaderboardConfig.buildPgProjections false := by
    decide +kernel
  have hrun : (Run.follow (step .exact leaderboardWorkers) { service := firstDepositStored }
      drainedTooEarly).map (fun s => decide (AllRead s)) = some true := by
    decide +kernel
  obtain ⟨s, hs, hread⟩ := Option.map_eq_some_iff.mp hrun
  have hend : ((Run.follow (step .exact leaderboardWorkers) { service := firstDepositStored }
      (drainedTooEarly ++ [.drain []])).map fun s =>
        (s.remaining, s.service.eventStore,
          (s.board.accountPnlState.lookup "0xa").map AccountPnlStateRow.totalDeposits,
          (computeAccountPnl s.service.stores.db "0xa").totalDeposits))
      = some ([], [firstDeposit], some 0, 10) := by
    decide +kernel
  obtain ⟨s', hs', heq⟩ := Option.map_eq_some_iff.mp hend
  simp only [Prod.mk.injEq] at heq
  obtain ⟨hover, hstore, hrow, hcomputed⟩ := heq
  rw [Run.follow_append, hs] at hs'
  obtain ⟨row, hlook, hshows, -⟩ := h .exact Externals.exact_lawful leaderboardConfig false hmarker
    firstDepositStored firstDepositStored_fresh drainedTooEarly [] [] s s' hs
    (fun p hp _ => ⟨500, fun e he _ => of_decide_eq_true hread p hp e he⟩)
    ⟨fun _ h => absurd h List.not_mem_nil, hs', hover⟩ "0xa"
    ⟨firstDeposit, by rw [hstore]; exact List.mem_singleton_self _, by decide +kernel⟩
  rw [hlook, Option.map_some, Option.some.injEq] at hrow
  rw [hcomputed, hrow] at hshows
  exact absurd hshows (by decide)
