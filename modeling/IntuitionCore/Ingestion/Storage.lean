import IntuitionCore.Projections.Events
import Mathlib.Data.List.Nodup
import Mathlib.Data.List.Perm.Basic

/-!
# The event store as it is written

Events are written in transactions, each of which inserts any number of rows.
A row is numbered from a sequence before it is checked against the rows that
are there, and it may wait there for another transaction; it becomes visible
when its transaction commits. Numbers are therefore handed out in one order,
and become visible in another.
-/

/-- An event as the ingestion receives it, with what the generated columns read
from its payload. -/
structure EventRecord where
  blockNumber : ℕ := 0
  blockTimestamp : ℤ := 0
  blockHash : String := ""
  transactionHash : String
  logIndex : ℕ := 0
  eventType : String
  eventData : EventData
  termId : Option String := none
  entityId : Option String := none
  deriving DecidableEq, Repr

namespace EventRecord

/-- The row of an event under a number; it is canonical. -/
def toRow (record : EventRecord) (sequenceNumber : ℕ) (ingestedAt : ℤ) : StoredEvent where
  sequenceNumber := sequenceNumber
  blockNumber := record.blockNumber
  blockTimestamp := record.blockTimestamp
  blockHash := record.blockHash
  transactionHash := record.transactionHash
  logIndex := record.logIndex
  eventType := record.eventType
  eventData := record.eventData
  termId := record.termId
  entityId := record.entityId
  isCanonical := true
  ingestedAt := ingestedAt

/-- Whether a row is of the same log, by the unique constraint of the table. -/
def conflicts (record : EventRecord) (row : StoredEvent) : Bool :=
  row.transactionHash == record.transactionHash && row.logIndex == record.logIndex
    && row.blockTimestamp == record.blockTimestamp

end EventRecord

/-- A row of a transaction that is still open. -/
structure PendingRow where
  transaction : ℕ
  row : StoredEvent
  deriving DecidableEq, Repr

/-- A number that a transaction has been handed for a row. -/
structure DrawnNumber where
  transaction : ℕ
  sequenceNumber : ℕ
  deriving DecidableEq, Repr

/-- The table `event_store` with its sequence and the transactions open on it. -/
structure EventTable where
  /-- The next number of the sequence. -/
  nextSequence : ℕ := 1
  /-- The rows that are visible, in the order in which they became so. -/
  rows : List StoredEvent := []
  /-- The rows of open transactions. -/
  pending : List PendingRow := []
  /-- The numbers of rows that are being inserted. -/
  drawn : List DrawnNumber := []

namespace EventTable

variable (table : EventTable) (tx : ℕ) (now : ℤ)

/-- A transaction is handed the next number for a row. -/
def draw : EventTable :=
  { table with
    nextSequence := table.nextSequence + 1
    drawn := table.drawn ++ [⟨tx, table.nextSequence⟩] }

/-- A transaction inserts a row under the number it was handed, unless the log is
there; if another open transaction has the log, it waits. -/
def insertRow (record : EventRecord) : Option EventTable :=
  match table.drawn.find? fun d => d.transaction == tx with
  | none => none
  | some d =>
    if table.pending.any fun p => p.transaction != tx && record.conflicts p.row then none
    else
      let drawn := table.drawn.erase d
      if table.rows.any record.conflicts || table.pending.any fun p => record.conflicts p.row then
        some { table with drawn }
      else
        some { table with
          drawn, pending := table.pending ++ [⟨tx, record.toRow d.sequenceNumber now⟩] }

/-- The rows of a bulk insert, one after the other; the chunks they are sent in
make no difference. -/
def bulkInsertEventStore (events : List EventRecord) : Option EventTable :=
  events.foldlM (fun table record => (table.draw tx).insertRow tx now record) table

/-- A transaction commits: its rows become visible. None is being inserted. -/
def commit : Option EventTable :=
  if table.drawn.any fun d => d.transaction == tx then none
  else some { table with
    rows := table.rows ++ (table.pending.filter fun p => p.transaction == tx).map PendingRow.row
    pending := table.pending.filter fun p => !(p.transaction == tx) }

/-- Some events are inserted in a transaction of their own. -/
def insertEventsBulk (events : List EventRecord) : Option EventTable :=
  if events.isEmpty then some table
  else (table.bulkInsertEventStore tx now events).bind fun table => table.commit tx

/-- A transaction fails: its rows and their numbers are lost. -/
def rollback : EventTable :=
  { table with
    pending := table.pending.filter fun p => !(p.transaction == tx)
    drawn := table.drawn.filter fun d => !(d.transaction == tx) }

/-- The numbers that have been handed out and not lost. -/
def numbers : List ℕ :=
  table.rows.map StoredEvent.sequenceNumber
    ++ (table.pending.map (fun p => p.row.sequenceNumber)
    ++ table.drawn.map DrawnNumber.sequenceNumber)

/-- **No number is handed out twice.** -/
structure Numbered : Prop where
  /-- All numbers are different. -/
  nodup : table.numbers.Nodup
  /-- The sequence is past all of them. -/
  lt_next : ∀ n ∈ table.numbers, n < table.nextSequence

variable {table} {tx : ℕ} {now : ℤ} {table' : EventTable} {record : EventRecord}

theorem numbered_empty : ({} : EventTable).Numbered := ⟨List.nodup_nil, nofun⟩

/-- A table with some of the numbers of another one, in any order, is
numbered. -/
theorem Numbered.of_subperm (h : table.Numbered) (hnext : table'.nextSequence = table.nextSequence)
    (hsub : table'.numbers.Subperm table.numbers) : table'.Numbered where
  nodup := by
    obtain ⟨l, hperm, hl⟩ := hsub
    exact hperm.nodup (hl.nodup h.nodup)
  lt_next n hn := hnext ▸ h.lt_next n (hsub.subset hn)

theorem Numbered.draw (h : table.Numbered) : (table.draw tx).Numbered := by
  have hnumbers : (table.draw tx).numbers = table.numbers ++ [table.nextSequence] := by
    simp [EventTable.draw, numbers]
  constructor
  · rw [hnumbers, List.nodup_append]
    refine ⟨h.nodup, List.nodup_singleton _, fun n hn n' hn' => ?_⟩
    exact List.mem_singleton.mp hn' ▸ (h.lt_next n hn).ne
  · rw [hnumbers]
    intro n hn
    obtain hn | hn := List.mem_append.mp hn
    · exact (h.lt_next n hn).trans (Nat.lt_succ_self _)
    · exact List.mem_singleton.mp hn ▸ Nat.lt_succ_self _

/-- **What an insert can do**: the number is used for the row, or lost. -/
theorem insertRow_eq_some (h : table.insertRow tx now record = some table') :
    ∃ d ∈ table.drawn, table' = { table with drawn := table.drawn.erase d } ∨
      table' = { table with
        drawn := table.drawn.erase d
        pending := table.pending ++ [⟨tx, record.toRow d.sequenceNumber now⟩] } := by
  unfold insertRow at h
  split at h
  · cases h
  · next d hd =>
    refine ⟨d, List.mem_of_find?_eq_some hd, ?_⟩
    split at h
    · cases h
    · split at h <;> cases h
      · exact .inl rfl
      · exact .inr rfl

theorem Numbered.insertRow (h : table.Numbered) (hi : table.insertRow tx now record = some table') :
    table'.Numbered := by
  obtain ⟨d, hd, rfl | rfl⟩ := insertRow_eq_some hi
  · refine h.of_subperm rfl (List.Sublist.subperm ?_)
    exact .append_left (.append_left (.map _ List.erase_sublist) _) _
  · -- the number moves from the drawn ones to the pending rows
    refine h.of_subperm rfl (List.Perm.subperm (.append_left _ ?_))
    show (List.map _ (table.pending ++ [_]) ++ (table.drawn.erase d).map _).Perm _
    rw [List.map_append, List.append_assoc]
    exact .append_left _ ((List.perm_cons_erase hd).map DrawnNumber.sequenceNumber).symm

theorem commit_eq_some (h : table.commit tx = some table') :
    table' = { table with
      rows := table.rows ++ (table.pending.filter fun p => p.transaction == tx).map PendingRow.row
      pending := table.pending.filter fun p => !(p.transaction == tx) } := by
  unfold commit at h
  split at h <;> cases h
  rfl

theorem Numbered.commit (h : table.Numbered) (hc : table.commit tx = some table') :
    table'.Numbered := by
  rw [commit_eq_some hc]
  refine h.of_subperm rfl (List.Perm.subperm ?_)
  show (List.map _ (table.rows ++ _) ++ (_ ++ _)).Perm _
  rw [List.map_append, List.append_assoc, ← List.append_assoc (List.map _ (List.map _ _)),
    List.map_map]
  refine .append_left _ (.append_right _ ?_)
  have hperm := (List.filter_append_perm (fun p : PendingRow => p.transaction == tx)
    table.pending).map fun p => p.row.sequenceNumber
  rw [List.map_append] at hperm
  exact hperm

theorem Numbered.rollback (h : table.Numbered) : (table.rollback tx).Numbered := by
  refine h.of_subperm rfl (List.Sublist.subperm (.append_left (.append ?_ ?_) _))
  · exact List.filter_sublist.map _
  · exact List.filter_sublist.map _

/-- A visible row is known by its number. -/
theorem Numbered.rows_inj (h : table.Numbered) {e f : StoredEvent} (he : e ∈ table.rows)
    (hf : f ∈ table.rows) (heq : e.sequenceNumber = f.sequenceNumber) : e = f :=
  List.inj_on_of_nodup_map (List.nodup_append.mp h.nodup).1 he hf heq

/-- A row of an open transaction is not visible. -/
theorem Numbered.not_mem_rows (h : table.Numbered) {p : PendingRow} (hp : p ∈ table.pending) :
    p.row ∉ table.rows := by
  intro hrow
  refine (List.nodup_append.mp h.nodup).2.2 p.row.sequenceNumber (List.mem_map_of_mem hrow) _ ?_ rfl
  exact List.mem_append_left _ (List.mem_map_of_mem (f := fun p => p.row.sequenceNumber) hp)

end EventTable
