import IntuitionCore.Library.Groups
import IntuitionCore.Library.Table
import IntuitionCore.Projections.Events

/-!
# Activity profiles

A row of `user_activity_daily` says what one account did on one day, and an activity
profile sums up the rows of its last days. Two queries compute such rows: the
backfill aggregates a day for all accounts at once, and a cycle aggregates the day it
runs on for one account. They are written differently, and agree about every account
that was active on the day.

A day is one of UTC, counted from 1970, and so is the day of a session. A creation is
its creator's activity; a deposit or a redemption is its sender's.
-/

namespace UserActivityRepo

/-- The UTC day of a point in time, given in seconds. -/
def utcDay (timestamp : ℤ) : ℤ := timestamp / 86400

/-- The range predicate of the queries. -/
def InDay (day timestamp : ℤ) : Prop :=
  day * 86400 ≤ timestamp ∧ timestamp < day * 86400 + 86400

instance (day timestamp : ℤ) : Decidable (InDay day timestamp) :=
  inferInstanceAs (Decidable (_ ∧ _))

theorem inDay_iff {day timestamp : ℤ} : InDay day timestamp ↔ utcDay timestamp = day := by
  unfold InDay utcDay
  omega

/-- A row of `user_activity_daily`. -/
structure DailyRollup where
  accountId : String
  day : ℤ
  atomsCreated : ℕ
  triplesCreated : ℕ
  depositsCount : ℕ
  redemptionsCount : ℕ
  depositVolume : ℚ
  redemptionVolume : ℚ
  uniqueVaults : ℕ
  netFlow : ℚ
  deriving DecidableEq, Repr

/-- Its unique key. -/
def DailyRollup.key (r : DailyRollup) : String × ℤ := (r.accountId, r.day)

/-- What a query reads of a deposit or a redemption. -/
structure VaultMove where
  sender : String
  termId : String
  curveId : ℚ
  amount : ℚ
  deriving DecidableEq, Repr

/-- The two columns tell vaults apart as well as their texts with a colon between
them: there is none in the text of a number. -/
def VaultMove.vaultKey (m : VaultMove) : String × ℚ := (m.termId, m.curveId)

/-! ## Scans -/

section Scans

variable (day : ℤ)

/-- The creator of an atom of a day. -/
def atomCreator? : ParsedEvent → Option String
  | .atomCreated metadata data =>
    if InDay day metadata.blockTimestamp then some data.creator else none
  | _ => none

/-- The creator of a triple of a day. -/
def tripleCreator? : ParsedEvent → Option String
  | .tripleCreated metadata data =>
    if InDay day metadata.blockTimestamp then some data.creator else none
  | _ => none

/-- A deposit of a day, with what is left of its assets after fees. -/
def depositMove? : ParsedEvent → Option VaultMove
  | .deposited metadata data =>
    if InDay day metadata.blockTimestamp then
      some ⟨data.sender, data.termId, data.curveId.val, data.assetsAfterFees.val⟩
    else none
  | _ => none

/-- A redemption of a day, with all its assets. -/
def redemptionMove? : ParsedEvent → Option VaultMove
  | .redeemed metadata data =>
    if InDay day metadata.blockTimestamp then
      some ⟨data.sender, data.termId, data.curveId.val, data.assets.val⟩
    else none
  | _ => none

/-- Whether an event is activity of an account on a day. -/
def isActivity (accountId : String) (e : ParsedEvent) : Bool :=
  (atomCreator? day e).any (· == accountId) || (tripleCreator? day e).any (· == accountId)
    || (depositMove? day e).any (·.sender == accountId)
    || (redemptionMove? day e).any (·.sender == accountId)

/-- What an account did on a day. -/
def activity (accountId : String) (events : List ParsedEvent) : List ParsedEvent :=
  events.filter (isActivity day accountId)

end Scans

/-! ## The day of all accounts -/

/-- A row of `deps` or `reds`: what a sender moved in one vault. -/
structure VaultGroup where
  accountId : String
  vaultKey : String × ℚ
  cnt : ℕ
  volume : ℚ
  deriving DecidableEq, Repr

/-- What the rows are grouped by. -/
def VaultMove.groupKey (m : VaultMove) : String × String × ℚ := (m.sender, m.vaultKey)

def vaultGroups (moves : List VaultMove) : List VaultGroup :=
  (Groups.keys VaultMove.groupKey moves).map fun k =>
    let group := Groups.group VaultMove.groupKey moves k
    ⟨k.1, k.2, group.length, (group.map VaultMove.amount).sum⟩

/-- Aggregate a day: a row for each account that was active. -/
def aggregateDay (events : List ParsedEvent) (day : ℤ) : List DailyRollup :=
  let atoms := events.filterMap (atomCreator? day)
  let triples := events.filterMap (tripleCreator? day)
  let deps := vaultGroups (events.filterMap (depositMove? day))
  let reds := vaultGroups (events.filterMap (redemptionMove? day))
  let vaultUnion := ((deps ++ reds).map fun g => (g.accountId, g.vaultKey)).dedup
  let allAccounts := (atoms ++ triples ++ (deps ++ reds).map VaultGroup.accountId).dedup
  allAccounts.map fun a =>
    let d := deps.filter fun g => g.accountId == a
    let r := reds.filter fun g => g.accountId == a
    { accountId := a
      day
      atomsCreated := atoms.count a
      triplesCreated := triples.count a
      depositsCount := (d.map VaultGroup.cnt).sum
      redemptionsCount := (r.map VaultGroup.cnt).sum
      depositVolume := (d.map VaultGroup.volume).sum
      redemptionVolume := (r.map VaultGroup.volume).sum
      uniqueVaults := ((vaultUnion.filter fun v => v.1 == a).map Prod.snd).dedup.length
      netFlow := (d.map VaultGroup.volume).sum - (r.map VaultGroup.volume).sum }

/-- Insert a row, or replace all of it. -/
def upsertDailyRollup (daily : Table (String × ℤ) DailyRollup) (rollup : DailyRollup) :
    Table (String × ℤ) DailyRollup :=
  daily.upsert rollup.key fun _ => rollup

/-! ## The day of one account -/

/-- Where a row of the union comes from. -/
inductive ActivitySource where
  | atom
  | triple
  | deposit
  | redeem
  deriving DecidableEq, Repr

structure ActivityRow where
  src : ActivitySource
  vol : Option ℚ := none
  vaultKey : Option (String × ℚ) := none
  deriving DecidableEq, Repr

/-- The union of what an account did on a day. -/
def activityRows (events : List ParsedEvent) (accountId : String) (day : ℤ) : List ActivityRow :=
  ((events.filterMap (atomCreator? day)).filter (· == accountId)).map
    (fun _ => { src := .atom })
  ++ ((events.filterMap (tripleCreator? day)).filter (· == accountId)).map
    (fun _ => { src := .triple })
  ++ ((events.filterMap (depositMove? day)).filter (·.sender == accountId)).map
    (fun m => ⟨.deposit, some m.amount, some m.vaultKey⟩)
  ++ ((events.filterMap (redemptionMove? day)).filter (·.sender == accountId)).map
    (fun m => ⟨.redeem, some m.amount, some m.vaultKey⟩)

/-- The row that a cycle of a day computes for an account. -/
def todayRollup (events : List ParsedEvent) (accountId : String) (day : ℤ) : DailyRollup :=
  let t := activityRows events accountId day
  let volume := fun src => ((t.filter fun row => row.src == src).filterMap ActivityRow.vol).sum
  { accountId
    day
    atomsCreated := t.countP fun row => row.src == .atom
    triplesCreated := t.countP fun row => row.src == .triple
    depositsCount := t.countP fun row => row.src == .deposit
    redemptionsCount := t.countP fun row => row.src == .redeem
    depositVolume := volume .deposit
    redemptionVolume := volume .redeem
    uniqueVaults := (t.filterMap ActivityRow.vaultKey).dedup.length
    netFlow := volume .deposit - volume .redeem }

/-- Compute the row of the day of `now`, and insert or replace it. -/
def upsertTodayRollup (daily : Table (String × ℤ) DailyRollup) (events : List ParsedEvent)
    (accountId : String) (now : ℤ) : Table (String × ℤ) DailyRollup :=
  upsertDailyRollup daily (todayRollup events accountId (utcDay now))

/-! ## Profiles -/

/-- What an account did in the last days. -/
structure ActivityWindow where
  atomsCreated : ℕ
  triplesCreated : ℕ
  deposits : ℕ
  redemptions : ℕ
  depositVolume : ℚ
  redemptionVolume : ℚ
  deriving DecidableEq, Repr

/-- What a recompute writes of a row of `user_activity_profile`. -/
structure ActivityProfile where
  window7 : ActivityWindow
  window30 : ActivityWindow
  window90 : ActivityWindow
  atomsCreated : ℕ
  triplesCreated : ℕ
  /-- The fraction of the activity that is creation, before it is rounded. -/
  creatorTraderRatio : Option ℚ
  uniqueVaultsTouched : ℕ
  lastRecomputedAt : ℤ
  deriving DecidableEq, Repr

/-- The sum of a column over the days of an account from some day on. -/
def sumSince {α : Type} [AddCommMonoid α] (daily : Table (String × ℤ) DailyRollup)
    (accountId : String) (since : ℤ) (column : DailyRollup → α) : α :=
  ∑ k ∈ daily.keys.filter fun k => k.1 = accountId ∧ since ≤ k.2,
    (daily.lookup k).elim 0 column

def activityWindow (daily : Table (String × ℤ) DailyRollup) (accountId : String) (since : ℤ) :
    ActivityWindow where
  atomsCreated := sumSince daily accountId since DailyRollup.atomsCreated
  triplesCreated := sumSince daily accountId since DailyRollup.triplesCreated
  deposits := sumSince daily accountId since DailyRollup.depositsCount
  redemptions := sumSince daily accountId since DailyRollup.redemptionsCount
  depositVolume := sumSince daily accountId since DailyRollup.depositVolume
  redemptionVolume := sumSince daily accountId since DailyRollup.redemptionVolume

/-- What an account created over all time. -/
def createdAllTime (accountId : String) (events : List ParsedEvent) : ℕ × ℕ :=
  (events.countP fun
    | .atomCreated _ data => data.creator == accountId
    | _ => false,
  events.countP fun
    | .tripleCreated _ data => data.creator == accountId
    | _ => false)

/-- The profile of an account, computed from its days and from what it created. -/
def activityProfile (daily : Table (String × ℤ) DailyRollup) (events : List ParsedEvent)
    (accountId : String) (now : ℤ) : ActivityProfile :=
  let window := fun days => activityWindow daily accountId (utcDay now - days)
  let w := window 30
  let created := w.atomsCreated + w.triplesCreated
  let total := w.deposits + w.redemptions + w.atomsCreated + w.triplesCreated
  { window7 := window 7
    window30 := w
    window90 := window 90
    atomsCreated := (createdAllTime accountId events).1
    triplesCreated := (createdAllTime accountId events).2
    creatorTraderRatio := if total = 0 then none else some (created / total)
    uniqueVaultsTouched :=
      ∑ k ∈ daily.keys.filter fun k => k.1 = accountId, (daily.lookup k).elim 0 (·.uniqueVaults)
    lastRecomputedAt := now }

def upsertActivityProfile (profiles : Table String ActivityProfile)
    (daily : Table (String × ℤ) DailyRollup) (events : List ParsedEvent) (accountId : String)
    (now : ℤ) : Table String ActivityProfile :=
  profiles.upsert accountId fun _ => activityProfile daily events accountId now

/-! ## The backfill -/

/-- The state of the backfill, as the checkpoint has it. -/
structure BackfillState where
  backfillComplete : Bool := false
  lastBackfillDay : Option ℤ := none
  deriving DecidableEq, Repr

/-- Merge a state into the checkpoint; a day that is not given is left. -/
def saveBackfillState (state : BackfillState) (complete : Bool) (lastDay : Option ℤ) :
    BackfillState where
  backfillComplete := complete
  lastBackfillDay := lastDay.or state.lastBackfillDay

/-- The last day there is, of the year 262142. -/
def maxDay : ℤ := 95026236

/-- The day after, unless there is none. -/
def succOpt (day : ℤ) : Option ℤ := if day < maxDay then some (day + 1) else none

/-- The day of an event, if it is in one of the typed tables that are read. -/
def eventDay? : ParsedEvent → Option ℤ
  | .atomCreated metadata _ => some (utcDay metadata.blockTimestamp)
  | .tripleCreated metadata _ => some (utcDay metadata.blockTimestamp)
  | .deposited metadata _ => some (utcDay metadata.blockTimestamp)
  | .redeemed metadata _ => some (utcDay metadata.blockTimestamp)
  | _ => none

/-- The first day of the typed tables. -/
def firstEventDay (events : List ParsedEvent) : Option ℤ := (events.filterMap eventDay?).min?

/-- What is activity of a day happened on the day. -/
theorem eventDay?_of_isActivity {day : ℤ} {accountId : String} {e : ParsedEvent}
    (h : isActivity day accountId e = true) : eventDay? e = some day := by
  cases e with
  | atomCreated metadata data | tripleCreated metadata data | deposited metadata data
  | redeemed metadata data =>
    have hday : InDay day metadata.blockTimestamp := by
      by_contra hday
      simp [isActivity, atomCreator?, tripleCreator?, depositMove?, redemptionMove?, hday] at h
    exact congrArg some (inDay_iff.mp hday)
  | _ => simp [isActivity, atomCreator?, tripleCreator?, depositMove?, redemptionMove?] at h

/-! ## What a row depends on -/

section Scans

variable {events : List ParsedEvent} {accountId : String} {day : ℤ}

/-- A scan for one account reads nothing but its activity. -/
theorem filter_filterMap_activity {α : Type} {scan : ParsedEvent → Option α} {p : α → Bool}
    (h : ∀ e, (scan e).any p = true → isActivity day accountId e = true) :
    ((activity day accountId events).filterMap scan).filter p
      = (events.filterMap scan).filter p := by
  unfold activity
  induction events with
  | nil => rfl
  | cons e events ih =>
    cases hscan : scan e with
    | none => by_cases he : isActivity day accountId e = true <;> simp [he, hscan, ih]
    | some x =>
      by_cases hx : p x = true
      · have he : isActivity day accountId e = true := h e (by rw [hscan]; exact hx)
        simp [he, hscan, hx, ih]
      · by_cases he : isActivity day accountId e = true <;> simp [he, hscan, hx, ih]

/-- **The row of an account depends on its activity only.** -/
theorem todayRollup_activity :
    todayRollup (activity day accountId events) accountId day
      = todayRollup events accountId day := by
  have hrows : activityRows (activity day accountId events) accountId day
      = activityRows events accountId day := by
    unfold activityRows
    rw [filter_filterMap_activity fun e he => by simp [isActivity, he],
      filter_filterMap_activity fun e he => by simp [isActivity, he],
      filter_filterMap_activity fun e he => by simp [isActivity, he],
      filter_filterMap_activity fun e he => by simp [isActivity, he]]
  unfold todayRollup
  rw [hrows]

end Scans

/-! ## The two queries agree -/

section Agree

variable {events : List ParsedEvent} {accountId : String} {day : ℤ}

/-- The moves of an account. -/
def ownMoves (accountId : String) (moves : List VaultMove) : List VaultMove :=
  moves.filter fun m => m.sender == accountId

/-- What both queries compute of an account. -/
def rollupOf (accountId : String) (day : ℤ) (atoms triples : List String)
    (deposits redemptions : List VaultMove) : DailyRollup :=
  let d := ownMoves accountId deposits
  let r := ownMoves accountId redemptions
  { accountId
    day
    atomsCreated := atoms.count accountId
    triplesCreated := triples.count accountId
    depositsCount := d.length
    redemptionsCount := r.length
    depositVolume := (d.map VaultMove.amount).sum
    redemptionVolume := (r.map VaultMove.amount).sum
    uniqueVaults := ((d ++ r).map VaultMove.vaultKey).dedup.length
    netFlow := (d.map VaultMove.amount).sum - (r.map VaultMove.amount).sum }

/-- The query for one account. -/
theorem todayRollup_eq :
    todayRollup events accountId day
      = rollupOf accountId day (events.filterMap (atomCreator? day))
        (events.filterMap (tripleCreator? day)) (events.filterMap (depositMove? day))
        (events.filterMap (redemptionMove? day)) := by
  have hdeposit : (ActivitySource.redeem == .deposit) = false := rfl
  have hredeem : (ActivitySource.deposit == .redeem) = false := rfl
  unfold todayRollup rollupOf activityRows ownMoves
  simp [List.filter_map, List.filterMap_map, Function.comp_def, List.count_eq_length_filter,
    List.countP_eq_length_filter, hdeposit, hredeem]

/-- The groups of an account count its moves, and add them up. -/
theorem sum_vaultGroups (moves : List VaultMove) :
    (((vaultGroups moves).filter fun g => g.accountId == accountId).map VaultGroup.cnt).sum
        = (ownMoves accountId moves).length
      ∧ (((vaultGroups moves).filter fun g => g.accountId == accountId).map VaultGroup.volume).sum
        = ((ownMoves accountId moves).map VaultMove.amount).sum := by
  unfold vaultGroups ownMoves
  simp only [List.filter_map, List.map_map, Function.comp_def]
  constructor
  · exact Groups.sum_length_groups VaultMove.groupKey (fun k => k.1 == accountId) moves
  · exact Groups.sum_groups VaultMove.groupKey (fun k => k.1 == accountId) VaultMove.amount moves

/-- The accounts and vaults of the groups are those of the moves. -/
theorem mem_vaultGroups {moves : List VaultMove} {a : String} {v : String × ℚ} :
    (∃ g ∈ vaultGroups moves, g.accountId = a ∧ g.vaultKey = v)
      ↔ ∃ m ∈ moves, m.sender = a ∧ m.vaultKey = v := by
  unfold vaultGroups
  simp [Groups.mem_keys, VaultMove.groupKey]

/-- The vaults that the union of the groups has for an account are counted once. -/
theorem uniqueVaults_eq (deposits redemptions : List VaultMove) :
    ((((vaultGroups deposits ++ vaultGroups redemptions).map
        fun g => (g.accountId, g.vaultKey)).dedup.filter fun v => v.1 == accountId).map
          Prod.snd).dedup.length
      = ((ownMoves accountId deposits ++ ownMoves accountId redemptions).map
          VaultMove.vaultKey).dedup.length := by
  rw [← List.card_toFinset, ← List.card_toFinset]
  congr 1
  ext v
  have hgroup : ∀ moves, (∃ g ∈ vaultGroups moves, g.accountId = accountId ∧ g.vaultKey = v)
      ↔ ∃ m ∈ moves, m.sender = accountId ∧ m.vaultKey = v := fun moves => mem_vaultGroups
  simp only [List.mem_toFinset, List.mem_map, List.mem_filter, List.mem_dedup, List.mem_append,
    ownMoves, beq_iff_eq]
  constructor
  · rintro ⟨_, ⟨⟨g, hg | hg, rfl⟩, ha⟩, hv⟩
    · obtain ⟨m, hm, ha', hv'⟩ := (hgroup deposits).mp ⟨g, hg, ha, hv⟩
      exact ⟨m, .inl ⟨hm, ha'⟩, hv'⟩
    · obtain ⟨m, hm, ha', hv'⟩ := (hgroup redemptions).mp ⟨g, hg, ha, hv⟩
      exact ⟨m, .inr ⟨hm, ha'⟩, hv'⟩
  · rintro ⟨m, ⟨hm, ha⟩ | ⟨hm, ha⟩, hv⟩
    · obtain ⟨g, hg, ha', hv'⟩ := (hgroup deposits).mpr ⟨m, hm, ha, hv⟩
      exact ⟨_, ⟨⟨g, .inl hg, rfl⟩, ha'⟩, hv'⟩
    · obtain ⟨g, hg, ha', hv'⟩ := (hgroup redemptions).mpr ⟨m, hm, ha, hv⟩
      exact ⟨_, ⟨⟨g, .inr hg, rfl⟩, ha'⟩, hv'⟩

/-- The accounts of a day are those that were active. -/
theorem mem_allAccounts :
    accountId ∈ events.filterMap (atomCreator? day) ++ events.filterMap (tripleCreator? day)
        ++ (vaultGroups (events.filterMap (depositMove? day))
          ++ vaultGroups (events.filterMap (redemptionMove? day))).map VaultGroup.accountId
      ↔ activity day accountId events ≠ [] := by
  have hgroup : ∀ moves, accountId ∈ (vaultGroups moves).map VaultGroup.accountId
      ↔ ∃ m ∈ moves, m.sender = accountId := fun moves => by
    simp [vaultGroups, Groups.mem_keys, VaultMove.groupKey]
  rw [List.map_append, List.mem_append, List.mem_append, List.mem_append, hgroup, hgroup]
  unfold activity isActivity
  rw [Ne, List.filter_eq_nil_iff]
  push Not
  simp only [Bool.or_eq_true, Option.any_eq_true, beq_iff_eq, List.mem_filterMap]
  constructor
  · rintro ((⟨e, he, h⟩ | ⟨e, he, h⟩) | ⟨m, ⟨e, he, h⟩, ha⟩ | ⟨m, ⟨e, he, h⟩, ha⟩)
    · exact ⟨e, he, .inl (.inl (.inl ⟨_, h, rfl⟩))⟩
    · exact ⟨e, he, .inl (.inl (.inr ⟨_, h, rfl⟩))⟩
    · exact ⟨e, he, .inl (.inr ⟨m, h, ha⟩)⟩
    · exact ⟨e, he, .inr ⟨m, h, ha⟩⟩
  · rintro ⟨e, he, ((⟨a, h, rfl⟩ | ⟨a, h, rfl⟩) | ⟨m, h, ha⟩) | ⟨m, h, ha⟩⟩
    · exact .inl (.inl ⟨e, he, h⟩)
    · exact .inl (.inr ⟨e, he, h⟩)
    · exact .inr (.inl ⟨m, ⟨e, he, h⟩, ha⟩)
    · exact .inr (.inr ⟨m, ⟨e, he, h⟩, ha⟩)

/-- **The two queries agree**: the backfill of a day has a row for each account that
was active, and it is the one that a cycle of the day would compute. -/
theorem mem_aggregateDay {r : DailyRollup} :
    r ∈ aggregateDay events day
      ↔ activity day r.accountId events ≠ [] ∧ r = todayRollup events r.accountId day := by
  unfold aggregateDay
  simp only [List.mem_map, List.mem_dedup, mem_allAccounts, todayRollup_eq, sum_vaultGroups,
    uniqueVaults_eq]
  constructor
  · rintro ⟨a, ha, rfl⟩
    exact ⟨ha, rfl⟩
  · rintro ⟨ha, hr⟩
    exact ⟨_, ha, hr.symm⟩

/-- The rows that a scan has for an account. -/
theorem length_filter_filterMap {α : Type} (scan : ParsedEvent → Option α) (p : α → Bool) :
    ((events.filterMap scan).filter p).length = events.countP fun e => (scan e).any p := by
  induction events with
  | nil => rfl
  | cons e events ih =>
    rw [List.countP_cons, ← ih]
    cases hscan : scan e with
    | none => simp [hscan]
    | some x => by_cases hx : p x = true <;> simp [hscan, hx]

/-- **A row counts the activity it was computed from.** -/
theorem todayRollup_count :
    (todayRollup events accountId day).atomsCreated
        + (todayRollup events accountId day).triplesCreated
        + (todayRollup events accountId day).depositsCount
        + (todayRollup events accountId day).redemptionsCount
      = (activity day accountId events).length := by
  rw [todayRollup_eq]
  unfold rollupOf ownMoves activity
  simp only [List.count_eq_length_filter, length_filter_filterMap]
  rw [← List.countP_eq_length_filter]
  induction events with
  | nil => rfl
  | cons e events ih =>
    -- an event is in at most one of the four tables
    have hone : ((atomCreator? day e).any (· == accountId)).toNat
          + ((tripleCreator? day e).any (· == accountId)).toNat
          + ((depositMove? day e).any (·.sender == accountId)).toNat
          + ((redemptionMove? day e).any (·.sender == accountId)).toNat
        = (isActivity day accountId e).toNat := by
      unfold isActivity
      cases e <;> simp [atomCreator?, tripleCreator?, depositMove?, redemptionMove?]
    have hcons : ∀ p : ParsedEvent → Bool, (e :: events).countP p
        = events.countP p + (p e).toNat := fun p => by
      rw [List.countP_cons]
      cases p e <;> rfl
    rw [hcons, hcons, hcons, hcons, hcons, ← ih, ← hone]
    omega

/-- **Of two states of the events, one of which goes on from the other, a row tells
them apart exactly if the account was active in between.** -/
theorem todayRollup_eq_iff {older newer : List ParsedEvent} (h : older <+: newer) :
    todayRollup older accountId day = todayRollup newer accountId day
      ↔ activity day accountId older = activity day accountId newer := by
  constructor
  · intro heq
    refine (h.filter _).eq_of_length ?_
    calc (activity day accountId older).length
      _ = _ := todayRollup_count.symm
      _ = _ := by rw [heq]
      _ = (activity day accountId newer).length := todayRollup_count
  · intro heq
    rw [← todayRollup_activity, heq, todayRollup_activity]

end Agree

end UserActivityRepo
