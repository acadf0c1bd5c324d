import IntuitionCore.Ingestion.DualWrite
import IntuitionCore.Library.Pages
import IntuitionCore.Projections.Worker
import Mathlib.Data.List.Forall2

/-!
# Two readers, page by page

A worker polls a page of events after its checkpoint. From `event_store` that is one query.
From the typed tables it is a union of one query for each type, and each of them has the
order and the limit of the whole: a page then reads no more rows of a table than fit on it.
No event is missed by this, and a worker that moves its checkpoint to the end of each page
is given every event once, in order, from either.

Where the typed tables mirror `event_store`, a page has the same events from both. They
differ in two columns only, which the one reader fills from elsewhere than the other.
-/

/-! ## The query of the typed tables -/

namespace TypedEventReader

/-- The query for some types: that of one table, or a union. -/
inductive UnionQuery where
  | single (fragment : EventType)
  | unionAll (fragments : List EventType)

/-- Names that are not known have no query, and are left out. -/
def buildUnionQuery (eventTypes : List String) : UnionQuery :=
  match eventTypes.filterMap EventType.fromStr with
  | [fragment] => .single fragment
  | fragments => .unionAll fragments

variable (fmt : Formats)

/-- A row of a typed table as it is returned. -/
def storedRow (row : TypedRow) : StoredEvent :=
  (sqlFragment fmt row.sequenceNumber row.event).toStored fmt.toExternals

variable (tables : List TypedRow) (afterSequence batchSize : ℕ)

/-- What the query of a type selects: the rows of its table after a number. -/
def selectAfter (t : EventType) : List StoredEvent :=
  (tables.filter fun row => row.event.type = t ∧ afterSequence < row.sequenceNumber).map
    (storedRow fmt)

/-- What a query returns. A union of nothing is no statement, and fails. -/
def fetchAll : UnionQuery → Option (List StoredEvent)
  | .single t =>
    some (Feed.first StoredEvent.sequenceNumber batchSize (selectAfter fmt tables afterSequence t))
  | .unionAll [] => none
  | .unionAll ts =>
    some (Feed.first StoredEvent.sequenceNumber batchSize (ts.flatMap fun t =>
      Feed.first StoredEvent.sequenceNumber batchSize (selectAfter fmt tables afterSequence t)))

/-- The events of some types after a number, in order, at most a number of them. -/
def readBatchMulti (eventTypes : List String) : Option (List StoredEvent) :=
  if eventTypes.isEmpty then some []
  else fetchAll fmt tables afterSequence batchSize (buildUnionQuery eventTypes)

end TypedEventReader

/-! ## The two stores -/

/-- Two events are the same but for the account, and for when they were stored. -/
def StoredEvent.SameLog (e e' : StoredEvent) : Prop :=
  { e with entityId := e'.entityId, ingestedAt := e'.ingestedAt } = e'

/-- **The typed tables mirror the event store**: numbers are unique, and each row of the one
is a canonical row of the other, if that is of a known type. -/
structure Mirrors (fmt : Formats) (tables : List TypedRow) (eventStore : List StoredEvent) :
    Prop where
  nodup_tables : (tables.map TypedRow.sequenceNumber).Nodup
  nodup_eventStore : (eventStore.map StoredEvent.sequenceNumber).Nodup
  stored : ∀ row ∈ tables, ∃ e ∈ eventStore, (TypedEventReader.storedRow fmt row).SameLog e
  typed : ∀ e ∈ eventStore, e.isCanonical = true → ∀ t : EventType, e.eventType = t.asStr →
    ∃ row ∈ tables, (TypedEventReader.storedRow fmt row).SameLog e

/-! ## The limit of a branch -/

section Reader

variable {fmt : Formats} {tables : List TypedRow} {eventStore : List StoredEvent}
  {types : List EventType} {c n : ℕ}

namespace TypedEventReader

@[simp] theorem sequenceNumber_storedRow (row : TypedRow) :
    (storedRow fmt row).sequenceNumber = row.sequenceNumber := by
  cases h : row.event <;> simp [storedRow, h, sqlFragment, select, EventRow.toStored]

@[simp] theorem eventType_storedRow (row : TypedRow) :
    (storedRow fmt row).eventType = row.event.type.asStr := by
  cases h : row.event <;>
    simp [storedRow, h, sqlFragment, select, EventRow.toStored, TypedEvent.type]

theorem isCanonical_storedRow (row : TypedRow) : (storedRow fmt row).isCanonical = true := by
  cases h : row.event <;> simp [storedRow, h, sqlFragment, select, EventRow.toStored]

/-- What a type selects. -/
theorem mem_selectAfter {t : EventType} {e : StoredEvent} :
    e ∈ selectAfter fmt tables c t
      ↔ ∃ row ∈ tables, (row.event.type = t ∧ c < row.sequenceNumber) ∧ storedRow fmt row = e := by
  simp [selectAfter, and_assoc]

variable (fmt c) in
/-- The numbers of what some types select are different. -/
theorem nodup_selectAfter (hnodup : (tables.map TypedRow.sequenceNumber).Nodup)
    (htypes : types.Nodup) :
    ((types.flatMap (selectAfter fmt tables c)).map StoredEvent.sequenceNumber).Nodup := by
  rw [List.map_flatMap, List.nodup_flatMap]
  constructor
  · intro t _
    rw [selectAfter, List.map_map]
    refine List.Nodup.sublist ?_ hnodup
    have hnumber : StoredEvent.sequenceNumber ∘ storedRow fmt = TypedRow.sequenceNumber :=
      funext sequenceNumber_storedRow
    rw [hnumber]
    exact List.filter_sublist.map _
  · refine htypes.imp fun {t t'} hne => ?_
    -- a number is of one row, and a row of one type
    intro s hs hs'
    obtain ⟨e, he, rfl⟩ := List.mem_map.mp hs
    obtain ⟨e', he', hsame⟩ := List.mem_map.mp hs'
    obtain ⟨row, hrow, ⟨rfl, -⟩, rfl⟩ := mem_selectAfter.mp he
    obtain ⟨row', hrow', ⟨rfl, -⟩, rfl⟩ := mem_selectAfter.mp he'
    rw [sequenceNumber_storedRow, sequenceNumber_storedRow] at hsame
    obtain rfl := List.inj_on_of_nodup_map hnodup hrow hrow' hsame.symm
    exact hne rfl

theorem filterMap_fromStr (types : List EventType) :
    (types.map EventType.asStr).filterMap EventType.fromStr = types := by
  rw [List.filterMap_map]
  have hsome : EventType.fromStr ∘ EventType.asStr = some := funext EventType.fromStr_asStr
  rw [hsome, List.filterMap_some]

/-- **The limits of the branches change nothing.** -/
theorem readBatchMulti_eq_first (hnodup : (tables.map TypedRow.sequenceNumber).Nodup)
    (htypes : types.Nodup) :
    readBatchMulti fmt tables c n (types.map EventType.asStr)
      = some (Feed.first StoredEvent.sequenceNumber n
          (types.flatMap (selectAfter fmt tables c))) := by
  have hunion := Feed.first_flatMap_first (nodup_selectAfter fmt c hnodup htypes) n
  unfold readBatchMulti buildUnionQuery
  rw [filterMap_fromStr]
  match types with
  | [] => simp [Feed.first, Feed.arrange]
  | [t] =>
    rw [List.flatMap_singleton]
    rfl
  | t :: t' :: ts => exact congrArg some hunion

/-- The events of the typed tables, in order. -/
def log (fmt : Formats) (tables : List TypedRow) : List StoredEvent :=
  Feed.arrange StoredEvent.sequenceNumber (tables.map (storedRow fmt))

variable (fmt) in
theorem inOrder_log (hnodup : (tables.map TypedRow.sequenceNumber).Nodup) :
    Feed.InOrder StoredEvent.sequenceNumber (log fmt tables) := by
  refine Feed.inOrder_arrange ?_
  have hnumber : StoredEvent.sequenceNumber ∘ storedRow fmt = TypedRow.sequenceNumber :=
    funext sequenceNumber_storedRow
  rwa [List.map_map, hnumber]

/-- What lies after a number, of some types. -/
theorem mem_after_log {e : StoredEvent} :
    e ∈ Feed.after StoredEvent.sequenceNumber c
        ((log fmt tables).filter (EventReader.wants (types.map EventType.asStr)))
      ↔ ∃ row ∈ tables, (row.event.type ∈ types ∧ c < row.sequenceNumber)
        ∧ storedRow fmt row = e := by
  have hname : ∀ t : EventType, t.asStr ∈ types.map EventType.asStr ↔ t ∈ types := fun t =>
    List.mem_map_of_injective (Function.LeftInverse.injective
      (g := fun s => (EventType.fromStr s).getD .atomCreated) fun t => by simp)
  unfold Feed.after log
  rw [List.mem_filter, List.mem_filter, Feed.mem_arrange, List.mem_map]
  constructor
  · rintro ⟨⟨⟨row, hrow, rfl⟩, hwants⟩, hlt⟩
    simp only [EventReader.wants, eventType_storedRow, List.contains_iff_mem, Bool.and_eq_true,
      hname, sequenceNumber_storedRow, decide_eq_true_eq] at hwants hlt
    exact ⟨row, hrow, ⟨hwants.1, hlt⟩, rfl⟩
  · rintro ⟨row, hrow, ⟨htype, hlt⟩, rfl⟩
    refine ⟨⟨⟨row, hrow, rfl⟩, ?_⟩, by simpa using hlt⟩
    simp only [EventReader.wants, eventType_storedRow, List.contains_iff_mem, Bool.and_eq_true,
      hname]
    exact ⟨htype, isCanonical_storedRow row⟩

/-- **A page of the typed tables is a poll of their log.** -/
theorem readBatchMulti_eq_poll (hnodup : (tables.map TypedRow.sequenceNumber).Nodup)
    (htypes : types.Nodup) :
    readBatchMulti fmt tables c n (types.map EventType.asStr)
      = some (Feed.poll StoredEvent.sequenceNumber
          (EventReader.wants (types.map EventType.asStr)) c n (log fmt tables)) := by
  rw [readBatchMulti_eq_first hnodup htypes]
  have hlog : Feed.arrange StoredEvent.sequenceNumber (types.flatMap (selectAfter fmt tables c))
      = Feed.after StoredEvent.sequenceNumber c
          ((log fmt tables).filter (EventReader.wants (types.map EventType.asStr))) := by
    refine (Feed.inOrder_arrange (nodup_selectAfter fmt c hnodup htypes)).eq_of_mem_iff
      (((inOrder_log fmt hnodup).filter _).filter _) fun e => ?_
    rw [Feed.mem_arrange]
    refine Iff.trans ?_ mem_after_log.symm
    simp only [List.mem_flatMap, mem_selectAfter]
    constructor
    · rintro ⟨t, ht, row, hrow, ⟨rfl, hlt⟩, rfl⟩
      exact ⟨row, hrow, ⟨ht, hlt⟩, rfl⟩
    · rintro ⟨row, hrow, ⟨ht, hlt⟩, rfl⟩
      exact ⟨_, ht, row, hrow, ⟨rfl, hlt⟩, rfl⟩
  unfold Feed.first Feed.poll
  rw [hlog]

end TypedEventReader

/-- **A page of `event_store` is a poll of its log**, in whatever order its rows are
stored. -/
theorem EventReader.readBatchMulti_eq_poll_arrange
    (hnodup : (eventStore.map StoredEvent.sequenceNumber).Nodup) (eventTypes : List String) :
    EventReader.readBatchMulti eventStore eventTypes c n
      = Feed.poll StoredEvent.sequenceNumber (EventReader.wants eventTypes) c n
          (Feed.arrange StoredEvent.sequenceNumber eventStore) := by
  rw [← EventReader.readBatchMulti_eq_poll eventTypes c n (Feed.inOrder_arrange hnodup)]
  have hfilter := (Feed.inOrder_arrange hnodup).filter fun e =>
    eventTypes.contains e.eventType && c < e.sequenceNumber && e.isCanonical
  unfold EventReader.readBatchMulti
  rw [List.mergeSort_of_pairwise (hfilter.imp fun hab => decide_eq_true (le_of_lt hab)),
    ← Feed.arrange_filter hnodup]
  rfl

/-! ## The same events -/

namespace StoredEvent.SameLog

variable {e e' : StoredEvent}

theorem sequenceNumber_eq (h : e.SameLog e') : e.sequenceNumber = e'.sequenceNumber := by
  unfold SameLog at h
  rw [← h]

theorem eventType_eq (h : e.SameLog e') : e.eventType = e'.eventType := by
  unfold SameLog at h
  rw [← h]

theorem isCanonical_eq (h : e.SameLog e') : e.isCanonical = e'.isCanonical := by
  unfold SameLog at h
  rw [← h]

end StoredEvent.SameLog

/-- Rows that are paired by their keys are paired in order. -/
theorem forall₂_of_map_eq {α β κ : Type} {f : α → κ} {g : β → κ} {R : α → β → Prop} {l : List α}
    {l' : List β} (hmap : l.map f = l'.map g) (h : ∀ a ∈ l, ∀ b ∈ l', f a = g b → R a b) :
    List.Forall₂ R l l' := by
  induction l generalizing l' with
  | nil =>
    obtain rfl := List.map_eq_nil_iff.mp hmap.symm
    exact .nil
  | cons a l ih =>
    cases l' with
    | nil => cases hmap
    | cons b l' =>
      obtain ⟨hab, hmap⟩ := List.cons.inj hmap
      exact .cons (h a List.mem_cons_self b List.mem_cons_self hab)
        (ih hmap fun a ha b hb => h a (List.mem_cons_of_mem _ ha) b (List.mem_cons_of_mem _ hb))

/-- An event is wanted as its row is. -/
theorem wants_iff_of_sameLog {row : TypedRow} {e : StoredEvent}
    (hsame : (TypedEventReader.storedRow fmt row).SameLog e) :
    EventReader.wants (types.map EventType.asStr) e = true ↔ row.event.type ∈ types := by
  unfold EventReader.wants
  rw [← hsame.eventType_eq, ← hsame.isCanonical_eq, TypedEventReader.eventType_storedRow,
    TypedEventReader.isCanonical_storedRow, Bool.and_true, List.contains_iff_mem, List.mem_map]
  constructor
  · rintro ⟨t, ht, heq⟩
    have hparse := congrArg EventType.fromStr heq
    rw [EventType.fromStr_asStr, EventType.fromStr_asStr] at hparse
    exact Option.some.inj hparse ▸ ht
  · intro ht
    exact ⟨_, ht, rfl⟩

theorem mem_after_arrange {e : StoredEvent} :
    e ∈ Feed.after StoredEvent.sequenceNumber c
      ((Feed.arrange StoredEvent.sequenceNumber eventStore).filter
        (EventReader.wants (types.map EventType.asStr)))
    ↔ e ∈ eventStore ∧ EventReader.wants (types.map EventType.asStr) e = true
      ∧ c < e.sequenceNumber := by
  simp [Feed.after, and_comm (a := c < e.sequenceNumber)]

/-- What the two logs have after a number has the same numbers. -/
theorem Mirrors.map_after_eq (h : Mirrors fmt tables eventStore) :
    (Feed.after StoredEvent.sequenceNumber c ((TypedEventReader.log fmt tables).filter
        (EventReader.wants (types.map EventType.asStr)))).map StoredEvent.sequenceNumber
      = (Feed.after StoredEvent.sequenceNumber c
          ((Feed.arrange StoredEvent.sequenceNumber eventStore).filter
            (EventReader.wants (types.map EventType.asStr)))).map StoredEvent.sequenceNumber := by
  have htables := TypedEventReader.inOrder_log fmt h.nodup_tables
  have hstore := Feed.inOrder_arrange h.nodup_eventStore
  have hnumbers {es : List StoredEvent} (hes : Feed.InOrder StoredEvent.sequenceNumber es) :
      Feed.InOrder id (es.map StoredEvent.sequenceNumber) := List.pairwise_map.mpr hes
  refine (hnumbers ((htables.filter _).filter _)).eq_of_mem_iff
    (hnumbers ((hstore.filter _).filter _)) fun s => ?_
  rw [List.mem_map, List.mem_map]
  constructor
  · rintro ⟨e, he, rfl⟩
    obtain ⟨row, hrow, ⟨htype, hlt⟩, rfl⟩ := TypedEventReader.mem_after_log.mp he
    obtain ⟨e', he', hsame⟩ := h.stored row hrow
    refine ⟨e', mem_after_arrange.mpr ⟨he', (wants_iff_of_sameLog hsame).mpr htype, ?_⟩,
      hsame.sequenceNumber_eq.symm⟩
    rwa [← hsame.sequenceNumber_eq, TypedEventReader.sequenceNumber_storedRow]
  · rintro ⟨e, he, rfl⟩
    obtain ⟨he, hwants, hlt⟩ := mem_after_arrange.mp he
    have htypes := hwants
    unfold EventReader.wants at htypes
    rw [Bool.and_eq_true, List.contains_iff_mem, List.mem_map] at htypes
    obtain ⟨⟨t, -, htype⟩, hcanonical⟩ := htypes
    obtain ⟨row, hrow, hsame⟩ := h.typed e he hcanonical t htype.symm
    refine ⟨TypedEventReader.storedRow fmt row, TypedEventReader.mem_after_log.mpr
      ⟨row, hrow, ⟨(wants_iff_of_sameLog hsame).mp hwants, ?_⟩, rfl⟩, hsame.sequenceNumber_eq⟩
    rwa [← hsame.sequenceNumber_eq, TypedEventReader.sequenceNumber_storedRow] at hlt

/-- **What the two logs have after a number is the same.** -/
theorem Mirrors.forall₂_after (h : Mirrors fmt tables eventStore) :
    List.Forall₂ StoredEvent.SameLog
      (Feed.after StoredEvent.sequenceNumber c ((TypedEventReader.log fmt tables).filter
        (EventReader.wants (types.map EventType.asStr))))
      (Feed.after StoredEvent.sequenceNumber c
        ((Feed.arrange StoredEvent.sequenceNumber eventStore).filter
          (EventReader.wants (types.map EventType.asStr)))) := by
  refine forall₂_of_map_eq h.map_after_eq fun e he e' he' hnumber => ?_
  -- of one number there is one event
  obtain ⟨row, hrow, -, rfl⟩ := TypedEventReader.mem_after_log.mp he
  obtain ⟨e'', he'', hsame⟩ := h.stored row hrow
  have heq : e'' = e' := List.inj_on_of_nodup_map h.nodup_eventStore he''
    (mem_after_arrange.mp he').1 (hsame.sequenceNumber_eq.symm.trans hnumber)
  exact heq ▸ hsame

end Reader

/-! ## Page by page -/

/-- **The typed reader reads as the monolithic one does.** Of the events of some types after
a checkpoint, in order, a page has the first, and pages that follow one another have each
event once, and all of them in the end; the events are those of `event_store`. -/
theorem typed_reader_eq_event_reader (fmt : Formats) (tables : List TypedRow)
    (eventStore : List StoredEvent) (h : Mirrors fmt tables eventStore) (types : List EventType)
    (htypes : types.Nodup) (checkpoint batchSize : ℕ) (hsize : 1 ≤ batchSize) :
    ∃ events : List StoredEvent, Feed.InOrder StoredEvent.sequenceNumber events
      ∧ (∀ e, e ∈ events ↔ ∃ row ∈ tables,
        (row.event.type ∈ types ∧ checkpoint < row.sequenceNumber)
          ∧ TypedEventReader.storedRow fmt row = e)
      ∧ TypedEventReader.readBatchMulti fmt tables checkpoint batchSize (types.map EventType.asStr)
        = some (events.take batchSize)
      ∧ List.Forall₂ StoredEvent.SameLog (events.take batchSize)
        (EventReader.readBatchMulti eventStore (types.map EventType.asStr) checkpoint batchSize)
      ∧ (∀ k, Feed.pages StoredEvent.sequenceNumber
          (fun c => (TypedEventReader.readBatchMulti fmt tables c batchSize
            (types.map EventType.asStr)).getD []) k checkpoint = events.take (k * batchSize))
      ∧ (∀ k, List.Forall₂ StoredEvent.SameLog (events.take (k * batchSize))
        (Feed.pages StoredEvent.sequenceNumber
          (fun c => EventReader.readBatchMulti eventStore (types.map EventType.asStr) c batchSize)
          k checkpoint))
      ∧ ∀ k, events.length ≤ k → events.take (k * batchSize) = events := by
  have htables := TypedEventReader.inOrder_log fmt h.nodup_tables
  have hpage : ∀ c, TypedEventReader.readBatchMulti fmt tables c batchSize
      (types.map EventType.asStr) = some (Feed.poll StoredEvent.sequenceNumber
        (EventReader.wants (types.map EventType.asStr)) c batchSize
        (TypedEventReader.log fmt tables)) := fun c =>
    TypedEventReader.readBatchMulti_eq_poll h.nodup_tables htypes
  have hstored : ∀ c, EventReader.readBatchMulti eventStore (types.map EventType.asStr) c batchSize
      = Feed.poll StoredEvent.sequenceNumber (EventReader.wants (types.map EventType.asStr)) c
        batchSize (Feed.arrange StoredEvent.sequenceNumber eventStore) := fun c =>
    EventReader.readBatchMulti_eq_poll_arrange h.nodup_eventStore _
  refine ⟨_, (htables.filter _).filter _, fun e => TypedEventReader.mem_after_log,
    hpage checkpoint, ?_, fun k => ?_, fun k => ?_, fun k hk => ?_⟩
  · rw [hstored]
    exact List.forall₂_take _ h.forall₂_after
  · simp only [hpage, Option.getD_some]
    exact Feed.pages_poll htables k
  · simp only [hstored]
    rw [Feed.pages_poll (Feed.inOrder_arrange h.nodup_eventStore)]
    exact List.forall₂_take _ h.forall₂_after
  · exact List.take_of_length_le (hk.trans (Nat.le_mul_of_pos_right k hsize))

/-! ## Two tables -/

/-- What is read from typed tables is an event store that they mirror. -/
theorem mirrors_storedRow {fmt : Formats} {tables : List TypedRow}
    (hnodup : (tables.map TypedRow.sequenceNumber).Nodup) :
    Mirrors fmt tables (tables.map (TypedEventReader.storedRow fmt)) where
  nodup_tables := hnodup
  nodup_eventStore := by
    have hnumber : StoredEvent.sequenceNumber ∘ TypedEventReader.storedRow fmt
        = TypedRow.sequenceNumber := funext TypedEventReader.sequenceNumber_storedRow
    rwa [List.map_map, hnumber]
  stored row hrow := ⟨_, List.mem_map_of_mem hrow, rfl⟩
  typed e he _ _ _ := by
    obtain ⟨row, hrow, rfl⟩ := List.mem_map.mp he
    exact ⟨row, hrow, rfl⟩

/-- A fee, stored before an atom that came first. -/
def feeAndAtom : List TypedRow :=
  [⟨.protocolFeeAccrued ⟨⟨1, 0, "0xb", "0xt", 1⟩, ⟨1, 0⟩, "0xa", ⟨5, 0⟩⟩, 2⟩,
    ⟨.atomCreated ⟨⟨1, 0, "0xb", "0xt", 0⟩, "0xa", ⟨7, 0⟩, "0x7", "0x", "0xw"⟩, 1⟩]

theorem typed_reader_eq_event_reader_feeAndAtom :
    ∃ events : List StoredEvent, Feed.InOrder StoredEvent.sequenceNumber events
      ∧ (∀ e, e ∈ events ↔ ∃ row ∈ feeAndAtom,
        (row.event.type ∈ [EventType.protocolFeeAccrued, .atomCreated] ∧ 0 < row.sequenceNumber)
          ∧ TypedEventReader.storedRow .exact row = e)
      ∧ TypedEventReader.readBatchMulti .exact feeAndAtom 0 1
        ["ProtocolFeeAccrued", "AtomCreated"] = some (events.take 1) := by
  obtain ⟨events, hord, hmem, hread, -⟩ := typed_reader_eq_event_reader .exact feeAndAtom
    (feeAndAtom.map (TypedEventReader.storedRow .exact)) (mirrors_storedRow (by decide))
    [.protocolFeeAccrued, .atomCreated] (by decide) 0 1 le_rfl
  exact ⟨events, hord, hmem, hread⟩
