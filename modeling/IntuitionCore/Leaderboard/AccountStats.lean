import IntuitionCore.Leaderboard.Marks
import IntuitionCore.Projections.Amounts
import Mathlib.Algebra.BigOperators.Group.Multiset.Basic
import Mathlib.Order.Bounds.Basic

/-!
# The statistics of an account

The marker keeps, for each account, what it deposited, what it redeemed, the volume of
both, and the time of its last activity. The three amounts are sums, so the order in which
events are processed does not matter to them. The time is written over by every event: it
is that of the event processed last, which need not be the latest.

The profit of an account has a column for its redemptions as well. The refresh leaves it to
the marker, and the marker does not know the table: the column is zero from the start.
-/

open LeaderboardMarkerProjection LeaderboardRepo LeaderboardRefreshProjection

/-! ## What an event is to an account -/

namespace AccountStats

variable (a : String)

/-- The event is a deposit the account sent or received, or a redemption it sent. -/
def concerns : ParsedEvent → Bool
  | .deposited _ data => data.sender = a ∨ data.receiver = a
  | .redeemed _ data => data.sender = a
  | _ => false

/-- What the account received of a deposit. -/
def deposit : ParsedEvent → ℚ
  | .deposited _ data => if data.receiver = a then data.assetsAfterFees.val else 0
  | _ => 0

/-- What the account redeemed. -/
def redemption : ParsedEvent → ℚ
  | .redeemed _ data => if data.sender = a then data.assets.val else 0
  | _ => 0

/-- What an event is to the volume of the account, once for both its sides. -/
def volume : ParsedEvent → ℚ
  | .deposited _ data => if data.sender = a ∨ data.receiver = a then data.assetsAfterFees.val else 0
  | .redeemed _ data => if data.sender = a then data.assets.val else 0
  | _ => 0

/-- The time of the block of an event. -/
def time (e : ParsedEvent) : ℤ := e.metadata.blockTimestamp

/-- The row of an account after an event that concerns it. -/
def count (row : Option AccountStatsRow) (e : ParsedEvent) : AccountStatsRow where
  totalDeposits := (row.getD {}).totalDeposits + deposit a e
  totalRedemptions := (row.getD {}).totalRedemptions + redemption a e
  totalVolume := (row.getD {}).totalVolume + volume a e
  lastActivityAt := some (time e)

/-- The row of an account after some events, each of them processed once. -/
def row (events : List ParsedEvent) : Option AccountStatsRow :=
  ((events.filter (concerns a)).getLast?).map fun last =>
    { totalDeposits := (events.map (deposit a)).sum
      totalRedemptions := (events.map (redemption a)).sum
      totalVolume := (events.map (volume a)).sum
      lastActivityAt := some (time last) }

variable {a} {ext : Externals} {tx : LeaderboardDb} {e : ParsedEvent} {events : List ParsedEvent}

/-- An event that does not concern an account adds nothing to it. -/
theorem eq_zero_of_not_concerns (h : concerns a e = false) :
    deposit a e = 0 ∧ redemption a e = 0 ∧ volume a e = 0 := by
  cases e with
  | deposited metadata data =>
    have h' : ¬ (data.sender = a ∨ data.receiver = a) := of_decide_eq_false h
    exact ⟨if_neg fun hr => h' (.inr hr), rfl, if_neg h'⟩
  | redeemed metadata data =>
    have h' : ¬ data.sender = a := of_decide_eq_false h
    exact ⟨rfl, if_neg h', if_neg h'⟩
  | _ => exact ⟨rfl, rfl, rfl⟩

/-- A row that is written is that of its account. -/
theorem lookup_upsert_stats (f : AccountStatsRow → AccountStatsRow) (b : String) :
    (tx.accountStats.upsert b fun row => f (row.getD {})).lookup a
      = if a = b then some (f ((tx.accountStats.lookup a).getD {}))
        else tx.accountStats.lookup a := by
  rw [Table.lookup_upsert]
  by_cases h : a = b
  · rw [if_pos h, if_pos h, h]
  · rw [if_neg h, if_neg h]

theorem lookup_updateDeposit (b : String) (amount : BigDecimal) (ts : ℤ) :
    (updateAccountStatsDeposit tx b amount ts).accountStats.lookup a
      = if a = b then
          some { (tx.accountStats.lookup a).getD {} with
            totalDeposits := ((tx.accountStats.lookup a).getD {}).totalDeposits + amount.val
            totalVolume := ((tx.accountStats.lookup a).getD {}).totalVolume + amount.val
            lastActivityAt := some ts }
        else tx.accountStats.lookup a :=
  lookup_upsert_stats (fun stats => { stats with
    totalDeposits := stats.totalDeposits + amount.val
    totalVolume := stats.totalVolume + amount.val
    lastActivityAt := some ts }) b

theorem lookup_updateVolume (b : String) (amount : BigDecimal) (ts : ℤ) :
    (updateAccountStatsVolume tx b amount ts).accountStats.lookup a
      = if a = b then
          some { (tx.accountStats.lookup a).getD {} with
            totalVolume := ((tx.accountStats.lookup a).getD {}).totalVolume + amount.val
            lastActivityAt := some ts }
        else tx.accountStats.lookup a :=
  lookup_upsert_stats (fun stats => { stats with
    totalVolume := stats.totalVolume + amount.val
    lastActivityAt := some ts }) b

theorem lookup_updateRedeem (b : String) (amount : BigDecimal) (ts : ℤ) :
    (updateAccountStatsRedeem tx b amount ts).accountStats.lookup a
      = if a = b then
          some { (tx.accountStats.lookup a).getD {} with
            totalRedemptions := ((tx.accountStats.lookup a).getD {}).totalRedemptions + amount.val
            totalVolume := ((tx.accountStats.lookup a).getD {}).totalVolume + amount.val
            lastActivityAt := some ts }
        else tx.accountStats.lookup a :=
  lookup_upsert_stats (fun stats => { stats with
    totalRedemptions := stats.totalRedemptions + amount.val
    totalVolume := stats.totalVolume + amount.val
    lastActivityAt := some ts }) b

/-- Marking an account leaves the statistics alone. -/
theorem accountStats_markDirtyAccount (b reason : String) :
    (markDirtyAccount tx b reason).accountStats = tx.accountStats := rfl

/-- **What a deposit is to the row of an account**, of either side of it. -/
theorem lookup_handleDeposited (metadata : EventMetadata) (data : DepositedRecord) :
    (handleDepositedTyped tx metadata data).accountStats.lookup a
      = if data.sender = a ∨ data.receiver = a then
          some (count a (tx.accountStats.lookup a) (.deposited metadata data))
        else tx.accountStats.lookup a := by
  unfold handleDepositedTyped
  by_cases hsame : data.sender = data.receiver
  · simp only [if_pos hsame, lookup_updateDeposit, accountStats_markDirtyAccount]
    by_cases hsender : data.sender = a
    · have hreceiver : data.receiver = a := hsame.symm.trans hsender
      simp [count, deposit, redemption, volume, time, hsender, hreceiver, ParsedEvent.metadata]
    · have hreceiver : ¬ data.receiver = a := fun h => hsender (hsame.trans h)
      rw [if_neg fun h => hsender h.symm, if_neg (not_or.mpr ⟨hsender, hreceiver⟩)]
  · simp only [if_neg hsame, lookup_updateDeposit, lookup_updateVolume,
      accountStats_markDirtyAccount]
    by_cases hreceiver : data.receiver = a
    · have hsender : ¬ data.sender = a := fun h => hsame (h.trans hreceiver.symm)
      have hne : ¬ a = data.sender := fun h => hsender h.symm
      simp [count, deposit, redemption, volume, time, hsender, hreceiver, hne,
        ParsedEvent.metadata]
    · rw [if_neg fun h => hreceiver h.symm]
      by_cases hsender : data.sender = a
      · simp [count, deposit, redemption, volume, time, hsender, hreceiver, ParsedEvent.metadata]
      · rw [if_neg fun h => hsender h.symm, if_neg (not_or.mpr ⟨hsender, hreceiver⟩)]

/-- **What the marker does to the row of an account**: it counts the event if that concerns
the account. -/
theorem lookup_processEvent (a : String) (e : ParsedEvent) :
    (processEvent ext tx e).accountStats.lookup a
      = if concerns a e then some (count a (tx.accountStats.lookup a) e)
        else tx.accountStats.lookup a := by
  cases e with
  | deposited metadata data =>
    refine (lookup_handleDeposited metadata data).trans (if_congr ?_ rfl rfl)
    exact decide_eq_true_iff.symm
  | redeemed metadata data =>
    refine (lookup_updateRedeem data.sender data.assets metadata.blockTimestamp).trans ?_
    simp only [accountStats_markDirtyAccount]
    by_cases hsender : data.sender = a
    · simp [concerns, count, deposit, redemption, volume, time, hsender, ParsedEvent.metadata]
    · rw [if_neg fun h => hsender h.symm, if_neg (by simpa [concerns] using hsender)]
  | _ => rfl

/-- The amounts of a row are sums, also where there is no row. -/
theorem row_getD (a : String) (events : List ParsedEvent) :
    ((row a events).getD {}).totalDeposits = (events.map (deposit a)).sum
      ∧ ((row a events).getD {}).totalRedemptions = (events.map (redemption a)).sum
      ∧ ((row a events).getD {}).totalVolume = (events.map (volume a)).sum := by
  unfold row
  cases hlast : (events.filter (concerns a)).getLast? with
  | some last => exact ⟨rfl, rfl, rfl⟩
  | none =>
    have hzero : ∀ e ∈ events, deposit a e = 0 ∧ redemption a e = 0 ∧ volume a e = 0 :=
      fun e he => eq_zero_of_not_concerns (Bool.not_eq_true _ ▸
        List.filter_eq_nil_iff.mp (List.getLast?_eq_none_iff.mp hlast) e he)
    have hsum (f : ParsedEvent → ℚ) (hf : ∀ e ∈ events, f e = 0) : 0 = (events.map f).sum :=
      (List.sum_eq_zero fun x hx => by
        obtain ⟨e, he, rfl⟩ := List.mem_map.mp hx
        exact hf e he).symm
    exact ⟨hsum _ fun e he => (hzero e he).1, hsum _ fun e he => (hzero e he).2.1,
      hsum _ fun e he => (hzero e he).2.2⟩

/-- One more event is counted in the row. -/
theorem row_concat (a : String) (events : List ParsedEvent) (e : ParsedEvent) :
    row a (events ++ [e])
      = if concerns a e then some (count a (row a events) e) else row a events := by
  have hsums (f : String → ParsedEvent → ℚ) :
      ((events ++ [e]).map (f a)).sum = (events.map (f a)).sum + f a e := by
    rw [List.map_append, List.sum_append, List.map_singleton, List.sum_singleton]
  by_cases h : concerns a e = true
  · obtain ⟨hdeposits, hredemptions, hvolume⟩ := row_getD a events
    rw [if_pos h, count, hdeposits, hredemptions, hvolume, row, hsums deposit, hsums redemption,
      hsums volume, List.filter_append, List.filter_cons_of_pos h, List.filter_nil,
      List.getLast?_concat]
    rfl
  · obtain ⟨hdeposit, hredemption, hvolume⟩ := eq_zero_of_not_concerns (Bool.not_eq_true _ ▸ h)
    rw [if_neg h, row, hsums deposit, hsums redemption, hsums volume, List.filter_append,
      List.filter_cons_of_neg h, List.filter_nil, List.append_nil, hdeposit, hredemption, hvolume,
      add_zero, add_zero, add_zero]
    rfl

/-- **A batch is counted event by event.** -/
theorem lookup_processParsedBatch {before : List ParsedEvent}
    (h : tx.accountStats.lookup a = row a before) (events : List ParsedEvent) :
    (processParsedBatch ext tx events).accountStats.lookup a = row a (before ++ events) := by
  unfold processParsedBatch
  induction events generalizing tx before with
  | nil => rwa [List.append_nil]
  | cons e events ih =>
    rw [List.foldl_cons, List.append_cons]
    refine ih ?_
    rw [lookup_processEvent, row_concat, h]

/-! ## What the statistics should be -/

/-- The amounts of a row are those of the events, in whatever order they were processed. -/
structure SumsRight (events : Multiset ParsedEvent) (a : String) (row : AccountStatsRow) :
    Prop where
  totalDeposits : row.totalDeposits = (events.map (deposit a)).sum
  totalRedemptions : row.totalRedemptions = (events.map (redemption a)).sum
  totalVolume : row.totalVolume = (events.map (volume a)).sum

/-- The last activity is the latest of the events that concern the account. -/
def LastActivityRight (events : Multiset ParsedEvent) (a : String) (row : AccountStatsRow) : Prop :=
  ∃ t, row.lastActivityAt = some t ∧ IsGreatest {t | ∃ e ∈ events, concerns a e ∧ time e = t} t

/-- The event of the account that was processed last is the latest of them. -/
def LatestLast (events : List ParsedEvent) (a : String) : Prop :=
  ∀ last ∈ (events.filter (concerns a)).getLast?, ∀ e ∈ events, concerns a e → time e ≤ time last

/-- **An account that events concern has a row, whose amounts are right.** -/
theorem exists_row (h : ∃ e ∈ events, concerns a e) :
    ∃ r, row a events = some r ∧ SumsRight events a r := by
  obtain ⟨e, he, hconcerns⟩ := h
  have hne : events.filter (concerns a) ≠ [] :=
    List.ne_nil_of_mem (List.mem_filter.mpr ⟨he, hconcerns⟩)
  refine ⟨_, by rw [row, List.getLast?_eq_some_getLast hne]; rfl, ?_, ?_, ?_⟩ <;>
    rw [Multiset.map_coe, Multiset.sum_coe]

/-- **The last activity of a row is right exactly if the last event is the latest.** -/
theorem lastActivityRight_iff {r : AccountStatsRow} (h : row a events = some r) :
    LastActivityRight events a r ↔ LatestLast events a := by
  obtain ⟨last, hlast, rfl⟩ := Option.map_eq_some_iff.mp h
  have hmem : last ∈ events ∧ concerns a last := List.mem_filter.mp (List.mem_of_getLast? hlast)
  refine ⟨?_, fun hlatest => ⟨time last, rfl, ⟨last, hmem.1, hmem.2, rfl⟩, ?_⟩⟩
  · rintro ⟨t, ht, -, hbound⟩ last' hlast' e he hconcerns
    cases hlast.symm.trans hlast'
    cases ht
    exact hbound ⟨e, he, hconcerns, rfl⟩
  · rintro t ⟨e, he, hconcerns, rfl⟩
    exact hlatest last hlast e he hconcerns

end AccountStats

/-! ## Runs -/

namespace LeaderboardCycles

open AccountStats

variable (ext : Externals) (db : Db)

/-- The events of a commit. -/
def eventsOf : LeaderboardCommit → List ParsedEvent
  | .marked events => events
  | .recomputed _ => []

/-- The events that were processed, in their order. -/
def markedEvents (s : LeaderboardCycles) : List ParsedEvent := s.commits.reverse.flatMap eventsOf

/-- The account is one of those that a running cycle computes next. -/
def IsNext (s : LeaderboardCycles) (i : ℕ) (a : String) : Prop :=
  ∃ vaults remaining, s.cycles.lookup i = some (.recomputing vaults remaining)
    ∧ a ∈ remaining.take pnlBatchSize

/-- **The statistics do not depend on the order of the events**: the row of an account has
the amounts of its events and the time of the latest one, and once a cycle has computed the
account, its profit has the same redemptions. -/
structure StatsIndependent (s : LeaderboardCycles) : Prop where
  stats : ∀ a, (∃ e ∈ s.markedEvents, concerns a e) →
    ∃ r, s.board.accountStats.lookup a = some r ∧ SumsRight s.markedEvents a r
      ∧ LastActivityRight s.markedEvents a r
  redemptions : ∀ i now s', step ext db s (.commitChunk i now) = some s' → ∀ a, s.IsNext i a →
    ∃ pnl, s'.board.accountPnlState.lookup a = some pnl
      ∧ pnl.totalRedemptions = ((s.markedEvents : Multiset ParsedEvent).map (redemption a)).sum

/-- No profit has redemptions. -/
def NoRedemptions (tx : LeaderboardDb) : Prop :=
  ∀ a pnl, tx.accountPnlState.lookup a = some pnl → pnl.totalRedemptions = 0

/-- **What the tables hold**: the statistics of the events that were processed, and profits
without redemptions. -/
structure StatsInv (s : LeaderboardCycles) : Prop where
  stats : ∀ a, s.board.accountStats.lookup a = row a s.markedEvents
  redemptions : NoRedemptions s.board

variable {ext db} {s s' : LeaderboardCycles} {tx : LeaderboardDb}

variable (db) in
theorem noRedemptions_refreshAccount (h : NoRedemptions tx) (now : String → ℤ) (a : String) :
    NoRedemptions (refreshAccount db now tx a)
      ∧ (refreshAccount db now tx a).accountStats = tx.accountStats := by
  obtain ⟨snapshots, heq⟩ := refreshAccount_eq db now tx a
  rw [heq]
  refine ⟨fun b pnl hpnl => ?_, rfl⟩
  have hupsert := (Table.lookup_upsert _ _ _ _).symm.trans hpnl
  by_cases hb : b = a
  · rw [if_pos hb] at hupsert
    cases hupsert
    show ((tx.accountPnlState.lookup a).map _).getD 0 = 0
    cases hold : tx.accountPnlState.lookup a with
    | none => rfl
    | some old => exact h a old hold
  · rw [if_neg hb] at hupsert
    exact h b pnl hupsert

variable (db) in
/-- **Computing accounts redeems nothing**, and leaves the statistics alone. -/
theorem noRedemptions_refreshChunk (h : NoRedemptions tx) (now : String → ℤ)
    (chunk : List String) :
    NoRedemptions (refreshChunk db now tx chunk)
      ∧ (refreshChunk db now tx chunk).accountStats = tx.accountStats := by
  unfold refreshChunk
  induction chunk generalizing tx with
  | nil => exact ⟨h, rfl⟩
  | cons a as ih =>
    obtain ⟨hfirst, hstats⟩ := noRedemptions_refreshAccount db h now a
    rw [List.foldl_cons]
    exact ⟨(ih hfirst).1, (ih hfirst).2.trans hstats⟩

/-- The events of a commit are behind those before it. -/
theorem flatMap_eventsOf_cons (commit : LeaderboardCommit) (commits : List LeaderboardCommit) :
    (commit :: commits).reverse.flatMap eventsOf
      = commits.reverse.flatMap eventsOf ++ eventsOf commit := by
  rw [List.reverse_cons, List.flatMap_append, List.flatMap_singleton]

/-- Where a cycle is matters to no table. -/
theorem StatsInv.setCycle (h : s.StatsInv) (i : ℕ) (c : Option RefreshCycle) :
    (s.setCycle i c).StatsInv := ⟨h.stats, h.redemptions⟩

/-- **A step keeps what the tables hold.** -/
theorem StatsInv.step {action : Action} (h : s.StatsInv)
    (hstep : LeaderboardCycles.step ext db s action = some s') : s'.StatsInv := by
  unfold LeaderboardCycles.step at hstep
  cases action with
  | mark events =>
    simp only at hstep
    split at hstep
    · cases hstep
      refine ⟨fun a => ?_, fun a pnl hpnl => ?_⟩
      · rw [markedEvents, flatMap_eventsOf_cons]
        exact lookup_processParsedBatch (h.stats a) events
      · rw [accountPnlState_processParsedBatch] at hpnl
        exact h.redemptions a pnl hpnl
    · cases hstep
  | commitChunk i now =>
    simp only at hstep
    split at hstep
    case h_1 vaults remaining hcycle =>
      cases hstep
      obtain ⟨hredemptions, hstats⟩ :=
        noRedemptions_refreshChunk db h.redemptions now (remaining.take pnlBatchSize)
      refine ⟨fun a => ?_, hredemptions⟩
      rw [markedEvents, flatMap_eventsOf_cons, hstats, eventsOf, List.append_nil]
      exact h.stats a
    case h_2 => cases hstep
  | begin i =>
    simp only at hstep
    split at hstep <;> cases hstep
    exact h.setCycle _ _
  | drainVaults i seen =>
    simp only at hstep
    split at hstep
    · split at hstep <;> cases hstep
      exact h.setCycle _ _
    · cases hstep
  | drainAccounts i seen =>
    simp only at hstep
    split at hstep
    · split at hstep <;> cases hstep
      exact h.setCycle _ _
    · cases hstep
  | commitDrain i order =>
    simp only at hstep
    split at hstep
    · split at hstep <;> cases hstep
      exact ⟨h.stats, h.redemptions⟩
    · cases hstep
  | fail i =>
    simp only at hstep
    split at hstep <;> cases hstep
    exact h.setCycle _ _

/-- **In every state of a run** the statistics are those of the events that were processed. -/
theorem statsInv_of_follow {schedule : List Action}
    (h : Run.follow (LeaderboardCycles.step ext db) {} schedule = some s) : s.StatsInv :=
  Run.invariant_of_follow (fun _ _ _ hinv hstep => hinv.step hstep) h
    ⟨fun _ => rfl, fun _ _ hpnl => nomatch hpnl⟩

/-- **A profit that is computed has no redemptions.** -/
theorem StatsInv.computed {i : ℕ} {now : String → ℤ} {a : String} (h : s.StatsInv)
    (hstep : LeaderboardCycles.step ext db s (.commitChunk i now) = some s')
    (hnext : s.IsNext i a) :
    ∃ pnl, s'.board.accountPnlState.lookup a = some pnl ∧ pnl.totalRedemptions = 0 := by
  obtain ⟨vaults, remaining, hcycle, ha⟩ := hnext
  have hinv := h.step hstep
  unfold LeaderboardCycles.step at hstep
  simp only [hcycle] at hstep
  cases hstep
  have hcomputed : (refreshChunk db now s.board (remaining.take pnlBatchSize)).UpToDate db a :=
    upToDate_refreshChunk (.inl ha)
  obtain ⟨pnl, hpnl, -⟩ := hcomputed
  exact ⟨pnl, hpnl, hinv.redemptions a pnl hpnl⟩

variable (ext db) in
/-- The next accounts of a cycle can be computed. -/
theorem exists_step_of_isNext {i : ℕ} {a : String} (h : s.IsNext i a) (now : String → ℤ) :
    ∃ s', LeaderboardCycles.step ext db s (.commitChunk i now) = some s' := by
  obtain ⟨vaults, remaining, hcycle, -⟩ := h
  unfold LeaderboardCycles.step
  simp only [hcycle]
  exact ⟨_, rfl⟩

/-- A chunk that is computed is recorded. -/
theorem isNext_of_commits {i : ℕ} {now : String → ℤ} {a : String} {accounts : List String}
    {commits : List LeaderboardCommit}
    (hstep : LeaderboardCycles.step ext db s (.commitChunk i now) = some s')
    (hcommits : s'.commits = .recomputed accounts :: commits) (ha : a ∈ accounts) :
    s.IsNext i a := by
  unfold LeaderboardCycles.step at hstep
  simp only at hstep
  split at hstep
  case h_1 vaults remaining hcycle =>
    cases hstep
    cases hcommits
    exact ⟨vaults, remaining, hcycle, ha⟩
  case h_2 => cases hstep

end LeaderboardCycles

/-- **The amounts of an account do not depend on the order of its events; its last activity
and the redemptions of its profit do not hold up.** In every state of a run, the row of an
account has the amounts of its events. Its last activity is the time of the latest of them
exactly if that was processed last, and its profit has the redemptions of the account exactly
if these add up to nothing. -/
theorem statsIndependent_iff {ext : Externals} {db : Db} {schedule : List LeaderboardCycles.Action}
    {s : LeaderboardCycles} (h : Run.follow (LeaderboardCycles.step ext db) {} schedule = some s) :
    (∀ a, (∃ e ∈ s.markedEvents, AccountStats.concerns a e) →
      ∃ r, s.board.accountStats.lookup a = some r ∧ AccountStats.SumsRight s.markedEvents a r)
    ∧ (s.StatsIndependent ext db
      ↔ (∀ a, AccountStats.LatestLast s.markedEvents a)
        ∧ ∀ i a, s.IsNext i a → (s.markedEvents.map (AccountStats.redemption a)).sum = 0) := by
  have hinv := LeaderboardCycles.statsInv_of_follow h
  refine ⟨fun a ha => ?_, fun hstats => ⟨fun a => ?_, fun i a hnext => ?_⟩,
    fun ⟨hlatest, hzero⟩ => ⟨fun a ha => ?_, fun i now s' hstep a hnext => ?_⟩⟩
  · rw [hinv.stats]
    exact AccountStats.exists_row ha
  · -- the row of the account is there, or no event concerns it
    intro last hlast
    have hmem := List.mem_filter.mp (List.mem_of_getLast? hlast)
    obtain ⟨r, hr, -, hright⟩ := hstats.stats a ⟨last, hmem⟩
    exact (AccountStats.lastActivityRight_iff ((hinv.stats a).symm.trans hr)).mp hright last hlast
  · obtain ⟨s', hstep⟩ := LeaderboardCycles.exists_step_of_isNext ext db hnext
      fun _ => 0
    obtain ⟨pnl, hpnl, hzero⟩ := hinv.computed hstep hnext
    obtain ⟨pnl', hpnl', hsum⟩ := hstats.redemptions i _ s' hstep a hnext
    cases hpnl.symm.trans hpnl'
    rw [Multiset.map_coe, Multiset.sum_coe] at hsum
    exact hsum.symm.trans hzero
  · obtain ⟨r, hr, hsums⟩ := AccountStats.exists_row ha
    exact ⟨r, (hinv.stats a).trans hr, hsums,
      (AccountStats.lastActivityRight_iff hr).mpr (hlatest a)⟩
  · obtain ⟨pnl, hpnl, hnone⟩ := hinv.computed hstep hnext
    rw [Multiset.map_coe, Multiset.sum_coe, hzero i a hnext]
    exact ⟨pnl, hpnl, hnone⟩

/-- A deposit, a redemption, and a cycle that computes the account. -/
def depositThenRedemption : List LeaderboardCycles.Action :=
  [.mark [depositedTen, redeemedTen], .begin 0, .drainVaults 0 ∅, .drainAccounts 0 {"0xa"},
    .commitDrain 0 ["0xa"]]

theorem statsIndependent_iff_depositThenRedemption :
    ∃ s, Run.follow (LeaderboardCycles.step .exact {}) {} depositThenRedemption = some s
      ∧ (∀ a, (∃ e ∈ s.markedEvents, AccountStats.concerns a e) →
        ∃ r, s.board.accountStats.lookup a = some r ∧ AccountStats.SumsRight s.markedEvents a r)
      ∧ (s.StatsIndependent .exact {}
        ↔ (∀ a, AccountStats.LatestLast s.markedEvents a)
          ∧ ∀ i a, s.IsNext i a → (s.markedEvents.map (AccountStats.redemption a)).sum = 0) := by
  have hrun : (Run.follow (LeaderboardCycles.step .exact {}) {} depositThenRedemption).isSome := by
    decide +kernel
  obtain ⟨s, hs⟩ := Option.isSome_iff_exists.mp hrun
  exact ⟨s, hs, statsIndependent_iff hs⟩

/-- A deposit of a later block. -/
def laterDeposit : ParsedEvent :=
  ParsedEvent.parseOrUnknown { firstDeposit with blockTimestamp := 20 }

/-- A redemption of an earlier block. -/
def earlierRedemption : ParsedEvent :=
  ParsedEvent.parseOrUnknown { firstRedemption with blockTimestamp := 10 }

/-- The event of the earlier block is processed last. -/
def earlierLast : List LeaderboardCycles.Action := [.mark [laterDeposit], .mark [earlierRedemption]]

/-- **The redemptions of a profit are not kept, and neither is the latest activity.** -/
theorem not_statsIndependent :
    ¬ (∀ s, Run.follow (LeaderboardCycles.step .exact {}) {} depositThenRedemption = some s →
        s.StatsIndependent .exact {})
      ∧ ¬ ∀ s, Run.follow (LeaderboardCycles.step .exact {}) {} earlierLast = some s →
        s.StatsIndependent .exact {} := by
  refine ⟨fun h => ?_, fun h => ?_⟩
  · have hrun : ((Run.follow (LeaderboardCycles.step .exact {}) {} depositThenRedemption).bind
        fun s => (LeaderboardCycles.step .exact {} s (.commitChunk 0 fun _ => 0)).map fun s' =>
          (s.commits, s'.commits, (s'.board.accountPnlState.lookup "0xa").map
            AccountPnlStateRow.totalRedemptions))
        = some ([.marked [depositedTen, redeemedTen]],
          [.recomputed ["0xa"], .marked [depositedTen, redeemedTen]], some 0) := by
      decide +kernel
    obtain ⟨s, hs, hstep⟩ := Option.bind_eq_some_iff.mp hrun
    obtain ⟨s', hstep, heq⟩ := Option.map_eq_some_iff.mp hstep
    simp only [Prod.mk.injEq] at heq
    obtain ⟨hcommits, hcommits', hnone⟩ := heq
    have hnext := LeaderboardCycles.isNext_of_commits hstep hcommits' (List.mem_singleton_self _)
    obtain ⟨pnl, hpnl, hsum⟩ := (h s hs).redemptions 0 _ s' hstep "0xa" hnext
    rw [hpnl, Option.map_some, hsum, LeaderboardCycles.markedEvents, hcommits] at hnone
    revert hnone
    decide +kernel
  · have hrun : (Run.follow (LeaderboardCycles.step .exact {}) {} earlierLast).map
        (fun s => (s.commits, (s.board.accountStats.lookup "0xa").map
          AccountStatsRow.lastActivityAt))
        = some ([.marked [earlierRedemption], .marked [laterDeposit]], some (some 10)) := by
      decide +kernel
    obtain ⟨s, hs, heq⟩ := Option.map_eq_some_iff.mp hrun
    simp only [Prod.mk.injEq] at heq
    obtain ⟨hcommits, hlast⟩ := heq
    have hmem : laterDeposit ∈ s.markedEvents := by
      rw [LeaderboardCycles.markedEvents, hcommits]
      exact List.mem_cons_self
    have hconcerns : AccountStats.concerns "0xa" laterDeposit := by decide +kernel
    obtain ⟨r, hr, -, t, ht, -, hbound⟩ := (h s hs).stats "0xa" ⟨laterDeposit, hmem, hconcerns⟩
    rw [hr, Option.map_some, ht] at hlast
    have hle : AccountStats.time laterDeposit ≤ 10 := by
      refine (hbound ⟨laterDeposit, hmem, hconcerns, rfl⟩).trans_eq ?_
      exact Option.some.inj (Option.some.inj hlast)
    revert hle
    decide +kernel
