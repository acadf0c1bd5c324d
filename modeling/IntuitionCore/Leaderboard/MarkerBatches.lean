import IntuitionCore.Leaderboard.Repo
import IntuitionCore.Library.Transaction
import IntuitionCore.Projections.Worker

/-!
# Batches of the markers

Two projections mark what is to be computed again: one the accounts and vaults
of the leaderboard, the other one the accounts with new activity. Either goes
through a batch in one transaction, logs an event whose handler fails, and
commits the rest.

PostgreSQL has no rest to commit once a statement has failed. The commit then
rolls back and is reported as a success, and the checkpoint moves past the whole
batch: the marks of the events before the one that failed are lost, unless they
were there before.
-/

open Transaction (Spared applyAll)

/-! ## Activity -/

/-- The table `dirty_account_activity`. -/
structure ActivityDb where
  dirtyAccountActivity : Table String DirtyAccountRow := ∅

namespace ActivityMarkerProjection

/-- Mark an account, or mark it for another reason. -/
def markDirtyAccountActivity (accountId reason : String) (tx : ActivityDb) : ActivityDb :=
  { tx with
    dirtyAccountActivity := tx.dirtyAccountActivity.upsert accountId fun _ => { reason } }

/-- The statements for an atom: its creator is marked. -/
def handleAtomCreatedTyped (data : AtomCreatedRecord) : List (ActivityDb → ActivityDb) :=
  [markDirtyAccountActivity data.creator "atom_created"]

/-- The statements for a triple: its creator is marked. -/
def handleTripleCreatedTyped (data : TripleCreatedRecord) : List (ActivityDb → ActivityDb) :=
  [markDirtyAccountActivity data.creator "triple_created"]

/-- The statements for a deposit: its sender is marked, and its receiver if that
is another account. -/
def handleDepositedTyped (data : DepositedRecord) : List (ActivityDb → ActivityDb) :=
  markDirtyAccountActivity data.sender "deposited"
    :: if data.sender ≠ data.receiver then
        [markDirtyAccountActivity data.receiver "deposit_received"]
      else []

/-- The statements for a redemption: its sender is marked, and its receiver if
that is another account. -/
def handleRedeemedTyped (data : RedeemedRecord) : List (ActivityDb → ActivityDb) :=
  markDirtyAccountActivity data.sender "redeemed"
    :: if data.sender ≠ data.receiver then
        [markDirtyAccountActivity data.receiver "redemption_received"]
      else []

/-- The statements for an event; the loop passes over events of other types. -/
def statements : ParsedEvent → List (ActivityDb → ActivityDb)
  | .atomCreated _ data => handleAtomCreatedTyped data
  | .tripleCreated _ data => handleTripleCreatedTyped data
  | .deposited _ data => handleDepositedTyped data
  | .redeemed _ data => handleRedeemedTyped data
  | _ => []

/-- Process a batch: the events whose handlers succeeded, and the database. -/
def processParsedBatch (conn : Connection) (db : ActivityDb) (events : List ParsedEvent) :
    Option (List ParsedEvent × ActivityDb) :=
  Transaction.run conn statements db events

/-- The accounts an event touches. -/
def touchedAccounts : ParsedEvent → Finset String
  | .atomCreated _ data => {data.creator}
  | .tripleCreated _ data => {data.creator}
  | .deposited _ data => {data.sender, data.receiver}
  | .redeemed _ data => {data.sender, data.receiver}
  | _ => ∅

/-- An account is marked. -/
def IsMarked (db : ActivityDb) (accountId : String) : Prop :=
  accountId ∈ db.dirtyAccountActivity

theorem isMarked_mark {db : ActivityDb} {a b reason : String} :
    IsMarked (markDirtyAccountActivity a reason db) b ↔ b = a ∨ IsMarked db b :=
  Table.mem_upsert

/-- **The statements for an event mark the accounts it touches**, and take no
mark away. -/
theorem isMarked_applyAll (db : ActivityDb) (event : ParsedEvent) (a : String) :
    IsMarked (applyAll (statements event) db) a
      ↔ a ∈ (touchedAccounts event : Set String) ∨ IsMarked db a := by
  cases event with
  | deposited metadata data =>
    by_cases h : data.sender = data.receiver <;>
      simp [statements, handleDepositedTyped, touchedAccounts, applyAll, h, isMarked_mark,
        or_left_comm, or_assoc]
  | redeemed metadata data =>
    by_cases h : data.sender = data.receiver <;>
      simp [statements, handleRedeemedTyped, touchedAccounts, applyAll, h, isMarked_mark,
        or_left_comm, or_assoc]
  | _ =>
    simp [statements, handleAtomCreatedTyped, handleTripleCreatedTyped, touchedAccounts, applyAll,
      isMarked_mark]

/-- **No mark is lost**: if a batch returns, every account touched by an event
whose handler succeeded is marked. -/
def MarksCommitted (conn : Connection) (db : ActivityDb) (events : List ParsedEvent) : Prop :=
  ∀ handled db', processParsedBatch conn db events = some (handled, db') →
    ∀ event ∈ handled, ∀ a ∈ touchedAccounts event, a ∈ db'.dirtyAccountActivity

end ActivityMarkerProjection

/-! ## The leaderboard -/

namespace LeaderboardMarkerProjection

variable (ext : Externals)

/-- The statements for an event, as its handler sends them. -/
def statements : ParsedEvent → List (LeaderboardDb → LeaderboardDb)
  | .deposited metadata data =>
    [fun tx => markDirtyAccount tx data.sender "deposited",
      fun tx => markDirtyAccount tx data.receiver "deposited"]
    ++ if data.sender = data.receiver then
        [fun tx => updateAccountStatsDeposit tx data.sender data.assetsAfterFees
          metadata.blockTimestamp]
      else
        [fun tx => updateAccountStatsVolume tx data.sender data.assetsAfterFees
          metadata.blockTimestamp,
        fun tx => updateAccountStatsDeposit tx data.receiver data.assetsAfterFees
          metadata.blockTimestamp]
  | .redeemed metadata data =>
    [fun tx => markDirtyAccount tx data.sender "redeemed",
      fun tx => markDirtyAccount tx data.receiver "redeemed",
      fun tx => updateAccountStatsRedeem tx data.sender data.assets metadata.blockTimestamp]
  | .sharePriceChanged _ data =>
    [fun tx => markDirtyVault tx data.termId (ext.toString data.curveId)]
  | _ => []

/-- The statements for an event do what the event does. -/
theorem applyAll_statements (tx : LeaderboardDb) (event : ParsedEvent) :
    applyAll (statements ext event) tx = processEvent ext tx event := by
  cases event with
  | deposited metadata data =>
    show _ = handleDepositedTyped tx metadata data
    unfold statements handleDepositedTyped
    by_cases h : data.sender = data.receiver
    · simp only [if_pos h]
      rfl
    · simp only [if_neg h]
      rfl
  | _ => rfl

/-- Process a batch over a connection: the events whose handlers succeeded, and
the database. -/
def processParsedBatchOver (conn : Connection) (db : LeaderboardDb) (events : List ParsedEvent) :
    Option (List ParsedEvent × LeaderboardDb) :=
  Transaction.run conn (statements ext) db events

/-- **Where no statement fails, a batch is processed.** -/
theorem processParsedBatchOver_of_not_fails {conn : Connection} (hbegins : conn.begins = true)
    (hcommits : conn.commits = true) (hfails : ∀ n, conn.fails n = false) (db : LeaderboardDb)
    (events : List ParsedEvent) :
    processParsedBatchOver ext conn db events
      = some (events, processParsedBatch ext db events) := by
  refine (Transaction.run_of_not_fails conn hbegins hcommits db fun n _ => hfails n).trans ?_
  congr 2
  unfold processParsedBatch
  induction events generalizing db with
  | nil => rfl
  | cons event events ih =>
    rw [List.foldl_cons, ← ih, ← applyAll_statements]
    unfold applyAll
    rw [List.flatMap_cons, List.foldl_append]

/-- What an event marks. -/
inductive DirtyMark where
  | account (accountId : String)
  | vault (k : VaultKey)

/-- What an event marks: its accounts, or its vault. -/
def dirtyMarks (event : ParsedEvent) : Set DirtyMark :=
  fun m => match m with
    | .account a => a ∈ markedAccounts event
    | .vault k => markedVault ext event = some k

/-- An account or a vault is marked. -/
def IsMarked (db : LeaderboardDb) : DirtyMark → Prop
  | .account a => a ∈ db.dirtyAccount
  | .vault k => k ∈ db.dirtyVault

theorem isMarked_applyAll (db : LeaderboardDb) (event : ParsedEvent) (m : DirtyMark) :
    IsMarked (applyAll (statements ext event) db) m ↔ m ∈ dirtyMarks ext event ∨ IsMarked db m := by
  rw [applyAll_statements]
  cases m with
  | account a => exact mem_dirtyAccount_processEvent
  | vault k => exact mem_dirtyVault_processEvent

/-- **No mark is lost**: if a batch returns, every account and vault touched by
an event whose handler succeeded is marked. -/
def MarksCommitted (conn : Connection) (db : LeaderboardDb) (events : List ParsedEvent) : Prop :=
  ∀ handled db', processParsedBatchOver ext conn db events = some (handled, db') →
    ∀ event ∈ handled, (∀ a ∈ markedAccounts event, a ∈ db'.dirtyAccount)
      ∧ ∀ k ∈ markedVault ext event, k ∈ db'.dirtyVault

end LeaderboardMarkerProjection

/-! ## When marks are lost -/

/-- **The markers lose no mark exactly if every batch of which a statement fails
is spared**: what the events before that statement touch is marked already, or
the batch is not reported as committed. -/
theorem marksCommitted_iff_spared (ext : Externals) (conn : Connection) (activity : ActivityDb)
    (board : LeaderboardDb) (events : List ParsedEvent) :
    (ActivityMarkerProjection.MarksCommitted conn activity events
      ↔ Spared conn ActivityMarkerProjection.statements ActivityMarkerProjection.IsMarked
          (fun event => (ActivityMarkerProjection.touchedAccounts event : Set String)) activity
          events)
    ∧ (LeaderboardMarkerProjection.MarksCommitted ext conn board events
      ↔ Spared conn (LeaderboardMarkerProjection.statements ext)
          LeaderboardMarkerProjection.IsMarked (LeaderboardMarkerProjection.dirtyMarks ext) board
          events) := by
  constructor
  · exact Transaction.marksKept_iff conn ActivityMarkerProjection.isMarked_applyAll activity events
  · rw [← Transaction.marksKept_iff conn (LeaderboardMarkerProjection.isMarked_applyAll ext)]
    refine forall₃_congr fun handled db' _ => forall₂_congr fun event _ => ?_
    constructor
    · rintro ⟨haccounts, hvault⟩ m hm
      cases m with
      | account a => exact haccounts a hm
      | vault k => exact hvault k hm
    · intro h
      exact ⟨fun a ha => h (.account a) ha, fun k hk => h (.vault k) hk⟩

/-! ## Two deposits, the second of which fails -/

section TwoDeposits

/-- A connection over which one statement fails. -/
def failsAt (n : ℕ) : Connection := ⟨true, fun m => m == n, true⟩

/-- The deposits of two accounts. -/
def twoDeposits : List ParsedEvent :=
  parseBatchOnce [firstDeposit, { firstDeposit with
    sequenceNumber := 2
    eventData := { deposited := some { firstDepositData with
      sender := "0xb"
      receiver := "0xb" } } }]

/-- **The mark of the first account is lost** when the deposit of the second one
fails. -/
theorem failsAt_marks_not_committed :
    ¬ ActivityMarkerProjection.MarksCommitted (failsAt 1) {} twoDeposits
      ∧ ¬ LeaderboardMarkerProjection.MarksCommitted .exact (failsAt 3) {} twoDeposits := by
  constructor
  · intro h
    have hmark := h [ParsedEvent.parseOrUnknown firstDeposit] {} rfl _ List.mem_cons_self "0xa"
      (by decide)
    exact Finmap.notMem_empty hmark
  · intro h
    have hmark := (h [ParsedEvent.parseOrUnknown firstDeposit] {} rfl _ List.mem_cons_self).1 "0xa"
      (by decide)
    exact Finmap.notMem_empty hmark

end TwoDeposits
