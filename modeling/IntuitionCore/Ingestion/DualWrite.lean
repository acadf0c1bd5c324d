import IntuitionCore.Ingestion.Readers
import IntuitionCore.Library.Distinct
import Mathlib.Logic.Function.Basic

/-!
# Writing two tables at once

The logs of one type are inserted in one transaction: their rows into
`event_store`, then, under the numbers those rows have there, their rows into
the table of their type. Both inserts leave out a row whose key is there. The
key of `event_store` has the timestamp of the block in it, and so have the keys
of three of the typed tables; those of the other four have not.
-/

/-- What tells logs apart: the transaction and the place in it. -/
abbrev LogId := String × ℕ

def LogHeader.logId (header : LogHeader) : LogId := (header.transactionHash, header.logIndex)

def StoredEvent.logId (row : StoredEvent) : LogId := (row.transactionHash, row.logIndex)

/-- The unique key of `event_store`. -/
def StoredEvent.key (row : StoredEvent) : LogId × ℤ := (row.logId, row.blockTimestamp)

/-- Whether the key of a typed table has the timestamp in it. -/
def EventType.keyHasTimestamp : EventType → Bool
  | .deposited | .redeemed | .sharePriceChanged => true
  | _ => false

/-- Whether a typed table takes each number once. -/
def EventType.numbersAreUnique : EventType → Bool
  | .atomCreated | .atomContextRegistered | .tripleCreated => true
  | _ => false

/-- A row of a typed table, with the number of its log in `event_store`. -/
structure TypedRow where
  event : TypedEvent
  sequenceNumber : ℕ

namespace TypedRow

def logId (row : TypedRow) : LogId := row.event.header.logId

/-- The unique key of a row in its table. -/
def key (row : TypedRow) : LogId × Option ℤ :=
  (row.logId, if row.event.type.keyHasTimestamp then some row.event.header.blockTimestamp else none)

end TypedRow

/-- The table `event_store` and the typed tables. -/
structure EventTables where
  store : EventTable := {}
  typed : EventType → List TypedRow := fun _ => []

/-- The rows of `event_store` that a transaction sees. -/
def EventTable.visibleTo (table : EventTable) (tx : ℕ) : List StoredEvent :=
  table.rows ++ (table.pending.filter fun p => p.transaction == tx).map PendingRow.row

/-- No transaction is open. -/
structure EventTable.Quiet (table : EventTable) : Prop where
  pending_eq : table.pending = []
  drawn_eq : table.drawn = []

/-! ## One transaction -/

/-- The numbers of some rows in `event_store`, in their order. -/
def fetchSequenceNumbers (rows : List StoredEvent) (headers : List LogHeader) : List ℕ :=
  headers.flatMap fun header =>
    (rows.filter fun row => row.transactionHash == header.transactionHash
      && row.logIndex == header.logIndex && row.blockTimestamp == header.blockTimestamp
      && row.isCanonical).map StoredEvent.sequenceNumber

/-- Insert a row into its typed table, unless its key is there. -/
def insertTypedRow (rows : List TypedRow) (row : TypedRow) : Option (List TypedRow) :=
  if rows.any fun r => r.key = row.key then some rows
  else if row.event.type.numbersAreUnique
      && rows.any fun r => r.sequenceNumber == row.sequenceNumber then none
  else some (rows ++ [row])

/-- Insert rows under some numbers, in order; with fewer numbers than rows it
panics. The chunks they are sent in make no difference. -/
def insertTypedRows (typed : List TypedEvent) (seqNumbers : List ℕ) (rows : List TypedRow) :
    Option (List TypedRow) :=
  if typed.length ≤ seqNumbers.length then
    (List.zipWith TypedRow.mk typed seqNumbers).foldlM insertTypedRow rows
  else none

namespace EventTables

variable (tables : EventTables) (tx : ℕ) (now : ℤ) (events : List EventRecord)
  (typed : List TypedEvent)

/-- Insert the logs of a type into `event_store` and into the table of the type,
in one transaction. -/
def insertEvents (type : EventType) : Option EventTables :=
  if events.isEmpty then some tables
  else do
    let store ← tables.store.bulkInsertEventStore tx now events
    let seqNumbers := fetchSequenceNumbers (store.visibleTo tx) (typed.map TypedEvent.header)
    let rows ← insertTypedRows typed seqNumbers (tables.typed type)
    let store ← store.commit tx
    return { store, typed := Function.update tables.typed type rows }

def insertAtomCreatedEvents : Option EventTables :=
  tables.insertEvents tx now events typed .atomCreated

def insertAtomContextRegisteredEvents : Option EventTables :=
  tables.insertEvents tx now events typed .atomContextRegistered

def insertTripleCreatedEvents : Option EventTables :=
  tables.insertEvents tx now events typed .tripleCreated

def insertDepositedEvents : Option EventTables :=
  tables.insertEvents tx now events typed .deposited

def insertRedeemedEvents : Option EventTables :=
  tables.insertEvents tx now events typed .redeemed

def insertSharePriceChangedEvents : Option EventTables :=
  tables.insertEvents tx now events typed .sharePriceChanged

def insertProtocolFeeAccruedEvents : Option EventTables :=
  tables.insertEvents tx now events typed .protocolFeeAccrued

/-- The insert that the handler of a type calls. -/
def insertOf : EventType → Option EventTables
  | .atomCreated => tables.insertAtomCreatedEvents tx now events typed
  | .atomContextRegistered => tables.insertAtomContextRegisteredEvents tx now events typed
  | .tripleCreated => tables.insertTripleCreatedEvents tx now events typed
  | .deposited => tables.insertDepositedEvents tx now events typed
  | .redeemed => tables.insertRedeemedEvents tx now events typed
  | .sharePriceChanged => tables.insertSharePriceChangedEvents tx now events typed
  | .protocolFeeAccrued => tables.insertProtocolFeeAccruedEvents tx now events typed

theorem insertOf_eq (type : EventType) :
    tables.insertOf tx now events typed type = tables.insertEvents tx now events typed type := by
  cases type <;> rfl

end EventTables

/-! ## What is there afterwards -/

/-- The rows of some records, numbered from a number. -/
def EventRecord.numbered (now : ℤ) : ℕ → List EventRecord → List StoredEvent
  | _, [] => []
  | n, record :: events => record.toRow n now :: numbered now (n + 1) events

/-- A numbered row is the row of a record. -/
theorem EventRecord.mem_numbered {now : ℤ} {n : ℕ} {events : List EventRecord}
    {row : StoredEvent} (h : row ∈ numbered now n events) :
    ∃ record ∈ events, ∃ m, row = record.toRow m now := by
  induction events generalizing n with
  | nil => cases h
  | cons record events ih =>
    obtain rfl | h := List.mem_cons.mp h
    · exact ⟨record, List.mem_cons_self, n, rfl⟩
    · obtain ⟨r, hr, hm⟩ := ih h
      exact ⟨r, List.mem_cons_of_mem _ hr, hm⟩

/-- Each record has a numbered row. -/
theorem EventRecord.exists_mem_numbered {now : ℤ} {n : ℕ} {events : List EventRecord}
    {record : EventRecord} (h : record ∈ events) :
    ∃ m, record.toRow m now ∈ numbered now n events := by
  induction events generalizing n with
  | nil => cases h
  | cons record' events ih =>
    obtain rfl | h := List.mem_cons.mp h
    · exact ⟨n, List.mem_cons_self⟩
    · obtain ⟨m, hm⟩ := ih (n := n + 1) h
      exact ⟨m, List.mem_cons_of_mem _ hm⟩

/-- A record conflicts with the rows that have its key. -/
theorem EventRecord.conflicts_iff {record : EventRecord} {row : StoredEvent} {n : ℕ} {now : ℤ} :
    record.conflicts row = true ↔ row.key = (record.toRow n now).key := by
  simp [EventRecord.conflicts, StoredEvent.key, StoredEvent.logId, EventRecord.toRow]

namespace EventTable

open Distinct

variable {table : EventTable} {tx : ℕ} {now : ℤ}

/-- Where no other transaction is open, all pending rows are visible. -/
theorem visibleTo_eq (h : ∀ p ∈ table.pending, p.transaction = tx) :
    table.visibleTo tx = table.rows ++ table.pending.map PendingRow.row := by
  unfold visibleTo
  rw [List.filter_eq_self.mpr fun p hp => by simp [h p hp]]

variable (now) in
/-- Where no other transaction is open, a row is inserted unless its key is
there. -/
theorem insertRow_draw (record : EventRecord) (hpending : ∀ p ∈ table.pending, p.transaction = tx)
    (hdrawn : table.drawn = []) :
    ∃ table', (table.draw tx).insertRow tx now record = some table'
      ∧ table'.rows = table.rows ∧ (∀ p ∈ table'.pending, p.transaction = tx)
      ∧ table'.drawn = [] ∧ table'.nextSequence = table.nextSequence + 1
      ∧ table'.visibleTo tx = insertNew StoredEvent.key (table.visibleTo tx)
          (record.toRow table.nextSequence now) := by
  have hwait : (table.pending.any fun p => p.transaction != tx && record.conflicts p.row) = false :=
    List.any_eq_false.mpr fun p hp => by simp [hpending p hp]
  have hany : (table.rows.any record.conflicts || table.pending.any fun p => record.conflicts p.row)
      = (table.visibleTo tx).any fun r =>
          r.key = (record.toRow table.nextSequence now).key := by
    have hconf : record.conflicts = fun r : StoredEvent =>
        decide (r.key = (record.toRow table.nextSequence now).key) := by
      funext r
      exact Bool.eq_iff_iff.mpr (EventRecord.conflicts_iff.trans decide_eq_true_iff.symm)
    rw [visibleTo_eq hpending, List.any_append, List.any_map, hconf]
    rfl
  unfold insertRow draw
  simp only [hdrawn, List.nil_append, List.find?_cons, beq_self_eq_true, hwait,
    Bool.false_eq_true, if_false, hany]
  unfold insertNew
  split
  · exact ⟨_, rfl, rfl, hpending, by simp, rfl, rfl⟩
  · have hpending' : ∀ p ∈ table.pending ++ [⟨tx, record.toRow table.nextSequence now⟩],
        p.transaction = tx := fun p hp => by
      obtain hp | hp := List.mem_append.mp hp
      · exact hpending p hp
      · exact List.mem_singleton.mp hp ▸ rfl
    refine ⟨_, rfl, rfl, hpending', by simp, rfl, ?_⟩
    rw [visibleTo_eq hpending', visibleTo_eq hpending, List.map_append, List.append_assoc]
    rfl

variable (now) in
/-- **A bulk insert numbers all its rows, and keeps those whose keys are
new.** -/
theorem bulkInsertEventStore_eq (events : List EventRecord)
    (hpending : ∀ p ∈ table.pending, p.transaction = tx) (hdrawn : table.drawn = []) :
    ∃ table', table.bulkInsertEventStore tx now events = some table'
      ∧ table'.rows = table.rows ∧ (∀ p ∈ table'.pending, p.transaction = tx)
      ∧ table'.drawn = []
      ∧ table'.visibleTo tx = insertAll StoredEvent.key (table.visibleTo tx)
          (EventRecord.numbered now table.nextSequence events) := by
  induction events generalizing table with
  | nil => exact ⟨table, rfl, rfl, hpending, hdrawn, rfl⟩
  | cons record events ih =>
    obtain ⟨table₁, h₁, hrows₁, hpending₁, hdrawn₁, hnext₁, hvisible₁⟩ :=
      insertRow_draw now record hpending hdrawn
    obtain ⟨table', h', hrows', hpending', hdrawn', hvisible'⟩ := ih hpending₁ hdrawn₁
    refine ⟨table', ?_, hrows'.trans hrows₁, hpending', hdrawn', ?_⟩
    · show ((table.draw tx).insertRow tx now record).bind _ = _
      rw [h₁]
      exact h'
    · rw [hvisible', hvisible₁, hnext₁]
      rfl

/-- A transaction that commits alone leaves its rows visible, and none open. -/
theorem Quiet.of_commit {table' : EventTable} (hpending : ∀ p ∈ table.pending, p.transaction = tx)
    (hdrawn : table.drawn = []) (h : table.commit tx = some table') :
    table'.Quiet ∧ table'.rows = table.visibleTo tx := by
  rw [commit_eq_some h]
  refine ⟨⟨?_, hdrawn⟩, rfl⟩
  exact List.filter_eq_nil_iff.mpr fun p hp => by simp [hpending p hp]

end EventTable

/-- A row that is inserted into its typed table is inserted if its key is new. -/
theorem insertTypedRow_eq_some {rows rows' : List TypedRow} {row : TypedRow}
    (h : insertTypedRow rows row = some rows') :
    rows' = Distinct.insertNew TypedRow.key rows row := by
  unfold insertTypedRow at h
  unfold Distinct.insertNew
  split at h
  · next hany =>
    cases h
    rw [if_pos hany]
  · next hany =>
    split at h <;> cases h
    rw [if_neg hany]

/-- **Rows that are inserted into their typed table are those whose keys are
new.** There is a number for each. -/
theorem insertTypedRows_eq_some {typed : List TypedEvent} {seqNumbers : List ℕ}
    {rows rows' : List TypedRow} (h : insertTypedRows typed seqNumbers rows = some rows') :
    typed.length ≤ seqNumbers.length
      ∧ rows' = Distinct.insertAll TypedRow.key rows
        (List.zipWith TypedRow.mk typed seqNumbers) := by
  unfold insertTypedRows at h
  split at h
  · next hlength =>
    refine ⟨hlength, ?_⟩
    generalize List.zipWith TypedRow.mk typed seqNumbers = new at h
    induction new generalizing rows with
    | nil =>
      cases h
      rfl
    | cons row new ih =>
      obtain ⟨rows₁, hrow, hnew⟩ := Option.bind_eq_some_iff.mp h
      rw [insertTypedRow_eq_some hrow] at hnew
      exact ih hnew
  · cases h

/-- **What a transaction writes**: the rows of `event_store` and of the table of
the type are those that were there, and of the others the ones whose keys are
new. -/
theorem EventTables.insertEvents_eq_some {tables tables' : EventTables} {tx : ℕ} {now : ℤ}
    {events : List EventRecord} {typed : List TypedEvent} {type : EventType}
    (hquiet : tables.store.Quiet) (hlength : events.length = typed.length)
    (h : tables.insertEvents tx now events typed type = some tables') :
    tables'.store.Quiet
      ∧ tables'.store.rows = Distinct.insertAll StoredEvent.key tables.store.rows
          (EventRecord.numbered now tables.store.nextSequence events)
      ∧ ∃ new : List TypedRow, new.map TypedRow.event = typed
        ∧ tables'.typed = Function.update tables.typed type
            (Distinct.insertAll TypedRow.key (tables.typed type) new) := by
  unfold insertEvents at h
  split at h
  · next hempty =>
    cases h
    rw [List.isEmpty_iff] at hempty
    subst hempty
    have htyped : typed = [] := List.eq_nil_of_length_eq_zero hlength.symm
    exact ⟨hquiet, rfl, [], htyped.symm, (Function.update_eq_self _ _).symm⟩
  · have hpending : ∀ p ∈ tables.store.pending, p.transaction = tx := fun p hp =>
      absurd (hquiet.pending_eq ▸ hp) List.not_mem_nil
    obtain ⟨store, hstore, hrows, hpending', hdrawn, hvisible⟩ :=
      EventTable.bulkInsertEventStore_eq now events hpending hquiet.drawn_eq
    simp only [hstore, Option.bind_eq_bind, Option.bind_some, Option.bind_eq_some_iff,
      Option.pure_def, Option.some.injEq] at h
    obtain ⟨rows, htyped, store', hcommit, rfl⟩ := h
    obtain ⟨hquiet', hrows'⟩ := EventTable.Quiet.of_commit hpending' hdrawn hcommit
    obtain ⟨hnumbers, hrows''⟩ := insertTypedRows_eq_some htyped
    have hnew : ∀ seqNumbers : List ℕ, typed.length ≤ seqNumbers.length →
        (List.zipWith TypedRow.mk typed seqNumbers).map TypedRow.event = typed :=
      fun seqNumbers hle => List.ext_getElem (by simp [hle]) (by simp)
    refine ⟨hquiet', ?_, _, hnew _ hnumbers, hrows'' ▸ rfl⟩
    rw [hrows', hvisible, EventTable.visibleTo_eq hpending, hquiet.pending_eq]
    simp
