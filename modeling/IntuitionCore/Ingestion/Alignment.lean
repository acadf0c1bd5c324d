import IntuitionCore.Ingestion.Deliveries
import IntuitionCore.Library.Chunks

/-!
# The numbers of typed rows

A call that writes two tables sends its rows in chunks, three times over: to
`event_store`, to the query for the numbers that `event_store` gave them, and to the
table of their type, where the numbers of a chunk are those at its place in the
list. Nothing but its place ties a number to a row. With one number too few the
slice of the last chunk would be out of range, and the code would panic; with one
missing in the middle, all later rows would get the numbers of others.

The query finds exactly one number for each row. The rows of a call are of logs that
it has just sent to `event_store`; there a log has one row for each timestamp, which
is there whether the call has made it or found it; and no row is ever taken for one
that is not canonical.
-/

open Result

/-- How a call fails. -/
inductive InsertError where
  | database
  /-- A slice is out of range. -/
  | panicked
  deriving DecidableEq, Repr

/-- The key of the row of a log in `event_store`. -/
def LogHeader.key (header : LogHeader) : LogId × ℤ := (header.logId, header.blockTimestamp)

/-- The key of the row of a record in `event_store`. -/
def EventRecord.key (record : EventRecord) : LogId × ℤ :=
  ((record.transactionHash, record.logIndex), record.blockTimestamp)

/-- The key of the row in `event_store` of the same log. -/
def TypedRow.storeKey (row : TypedRow) : LogId × ℤ := row.event.header.key

/-- A call of one of the inserts. The handlers push the two rows of each log
together, so each typed row is of a log that has a record. -/
structure InsertCall where
  type : EventType
  /-- What `bulk_chunk_size` returns. -/
  chunkSize : ℕ
  ingestedAt : ℤ
  events : List EventRecord
  typed : List TypedEvent
  one_le_chunkSize : 1 ≤ chunkSize
  type_eq : ∀ event ∈ typed, event.type = type
  exists_record : ∀ event ∈ typed, ∃ record ∈ events, record.key = event.header.key

/-- A bulk insert hands out no number twice. -/
theorem EventTable.Numbered.bulkInsertEventStore {table table' : EventTable} {tx : ℕ} {now : ℤ}
    {events : List EventRecord} (h : table.Numbered)
    (hi : table.bulkInsertEventStore tx now events = some table') : table'.Numbered := by
  induction events generalizing table with
  | nil =>
    cases hi
    exact h
  | cons record events ih =>
    obtain ⟨table₁, h₁, hrest⟩ := Option.bind_eq_some_iff.mp hi
    exact ih (h.draw.insertRow h₁) hrest

/-! ## A call, in chunks -/

namespace EventTables

/-- The rows are sent to `event_store`. -/
def bulkInsertInChunks (chunkSize : ℕ) (table : EventTable) (tx : ℕ) (now : ℤ)
    (events : List EventRecord) : Option EventTable :=
  (Chunks.chunks chunkSize events).foldlM
    (fun table chunk => table.bulkInsertEventStore tx now chunk) table

/-- The numbers are asked for. -/
def fetchInChunks (chunkSize : ℕ) (rows : List StoredEvent) (headers : List LogHeader) :
    List ℕ :=
  (Chunks.chunks chunkSize headers).flatMap (fetchSequenceNumbers rows)

/-- The rows are sent to the table of their type, each chunk with the slice of the
numbers that begins at its offset. -/
def insertTypedInChunks (chunkSize : ℕ) (typed : List TypedEvent) (seqNumbers : List ℕ)
    (rows : List TypedRow) : Except InsertError (List TypedRow) :=
  (List.range (Chunks.count chunkSize typed)).foldlM (fun rows chunkIdx => do
    let chunk := Chunks.chunk chunkSize typed chunkIdx
    let offset := chunkIdx * chunkSize
    let seqChunk ← okOr (Chunks.slice seqNumbers offset chunk.length) .panicked
    okOr ((List.zipWith TypedRow.mk chunk seqChunk).foldlM insertTypedRow rows) .database) rows

/-- **A call**, which is one transaction. -/
def insertCall (tables : EventTables) (call : InsertCall) : Except InsertError EventTables :=
  if call.events.isEmpty then .ok tables
  else do
    let store ← okOr (bulkInsertInChunks call.chunkSize tables.store 0 call.ingestedAt call.events)
      .database
    let seqNumbers := fetchInChunks call.chunkSize (store.visibleTo 0)
      (call.typed.map TypedEvent.header)
    let rows ← insertTypedInChunks call.chunkSize call.typed seqNumbers (tables.typed call.type)
    let store ← okOr (store.commit 0) .database
    return { store, typed := Function.update tables.typed call.type rows }

/-! ## The chunks make no difference -/

theorem bulkInsertInChunks_eq {chunkSize : ℕ} (h : 1 ≤ chunkSize) (table : EventTable) (tx : ℕ)
    (now : ℤ) (events : List EventRecord) :
    bulkInsertInChunks chunkSize table tx now events
      = table.bulkInsertEventStore tx now events := by
  unfold bulkInsertInChunks EventTable.bulkInsertEventStore
  rw [← foldlM_flatten, Chunks.flatten_chunks h]

theorem fetchInChunks_eq {chunkSize : ℕ} (h : 1 ≤ chunkSize) (rows : List StoredEvent)
    (headers : List LogHeader) :
    fetchInChunks chunkSize rows headers = fetchSequenceNumbers rows headers := by
  have hflatten := Chunks.flatten_chunks h headers
  unfold fetchInChunks fetchSequenceNumbers
  rw [← List.flatMap_assoc, List.flatMap_id', hflatten]

/-- **With a number for each row, no slice is out of range.** -/
theorem insertTypedInChunks_eq {chunkSize : ℕ} (h : 1 ≤ chunkSize) {typed : List TypedEvent}
    {seqNumbers : List ℕ} (hlength : typed.length ≤ seqNumbers.length) (rows : List TypedRow) :
    insertTypedInChunks chunkSize typed seqNumbers rows
      = okOr (insertTypedRows typed seqNumbers rows) .database := by
  let piece : ℕ → List TypedRow := fun i =>
    List.zipWith TypedRow.mk (Chunks.chunk chunkSize typed i)
      ((seqNumbers.drop (i * chunkSize)).take (Chunks.chunk chunkSize typed i).length)
  have hpieces : ((List.range (Chunks.count chunkSize typed)).map piece).flatten
      = List.zipWith TypedRow.mk typed seqNumbers :=
    Chunks.flatten_zipWith_chunks h TypedRow.mk hlength
  unfold insertTypedInChunks insertTypedRows
  rw [if_pos hlength, ← hpieces, foldlM_flatten, okOr_foldlM, List.foldlM_map]
  refine foldlM_congr (fun i hi rows => ?_) rows
  simp only [Chunks.slice_eq_some hlength (List.mem_range.mp hi)]
  rfl

/-! ## One number for each row -/

/-- The number of the row with a key. -/
def numberAt (rows : List StoredEvent) (key : LogId × ℤ) : ℕ :=
  ((rows.find? fun r => r.key = key).map StoredEvent.sequenceNumber).getD 0

/-- The rows of `event_store` are told apart by their keys, each is there once, and
all are canonical. -/
structure WellKept (rows : List StoredEvent) : Prop where
  nodup : rows.Nodup
  byKey : Distinct.ByKey StoredEvent.key rows
  canonical : ∀ r ∈ rows, r.isCanonical = true

/-- The number of a row is that of its key. -/
theorem WellKept.numberAt_eq {rows : List StoredEvent} (h : WellKept rows) {r : StoredEvent}
    (hr : r ∈ rows) : numberAt rows r.key = r.sequenceNumber := by
  unfold numberAt
  cases hfind : rows.find? fun r' => r'.key = r.key with
  | none => exact absurd (List.find?_eq_none.mp hfind r hr) (by simp)
  | some r' =>
    have hkey : r'.key = r.key := by simpa using List.find?_some hfind
    rw [h.byKey r' (List.mem_of_find?_eq_some hfind) r hr hkey]
    rfl

/-- **The query finds one number for each log that has a row.** -/
theorem WellKept.fetchSequenceNumbers_eq {rows : List StoredEvent} (h : WellKept rows)
    {headers : List LogHeader} (hex : ∀ header ∈ headers, ∃ r ∈ rows, r.key = header.key) :
    fetchSequenceNumbers rows headers = headers.map fun header => numberAt rows header.key := by
  unfold fetchSequenceNumbers
  rw [← List.flatMap_singleton' (headers.map _), List.flatMap_map]
  refine List.flatMap_congr fun header hheader => ?_
  obtain ⟨r, hr, hkey⟩ := hex header hheader
  -- the row of the log is the only one that the join finds
  have hjoins : ∀ r' ∈ rows, (r'.transactionHash == header.transactionHash
      && r'.logIndex == header.logIndex && r'.blockTimestamp == header.blockTimestamp
      && r'.isCanonical) = true ↔ r'.key = header.key := fun r' hr' => by
    simp [StoredEvent.key, StoredEvent.logId, LogHeader.key, LogHeader.logId, h.canonical r' hr']
  have hrows : (rows.filter fun r' => r'.transactionHash == header.transactionHash
      && r'.logIndex == header.logIndex && r'.blockTimestamp == header.blockTimestamp
      && r'.isCanonical) = [r] := by
    refine List.perm_singleton.mp ((List.perm_ext_iff_of_nodup (h.nodup.filter _)
      (List.nodup_singleton r)).mpr fun r' => ?_)
    rw [List.mem_filter, List.mem_singleton]
    constructor
    · rintro ⟨hr', hjoin⟩
      exact h.byKey r' hr' r hr (((hjoins r' hr').mp hjoin).trans hkey.symm)
    · rintro rfl
      exact ⟨hr, (hjoins r' hr).mpr hkey⟩
  rw [hrows, ← hkey, h.numberAt_eq hr]
  rfl

/-! ## What is so in every state -/

/-- The numbers of the rows of some logs that are there. -/
theorem WellKept.fetchSequenceNumbers_header {rows : List StoredEvent} (h : WellKept rows)
    {typed : List TypedEvent} (hex : ∀ event ∈ typed, ∃ r ∈ rows, r.key = event.header.key) :
    fetchSequenceNumbers rows (typed.map TypedEvent.header)
      = typed.map fun event => numberAt rows event.header.key := by
  rw [h.fetchSequenceNumbers_eq (List.forall_mem_map.mpr hex), List.map_map]
  rfl

/-- **What is so in every state**: numbers are not handed out twice, `event_store` is
well kept, and each typed row has the number of the row of its log. -/
structure Numbered (tables : EventTables) : Prop where
  numbered : tables.store.Numbered
  quiet : tables.store.Quiet
  wellKept : WellKept tables.store.rows
  type_eq : ∀ type, ∀ row ∈ tables.typed type, row.event.type = type
  stored : ∀ type, ∀ row ∈ tables.typed type, ∃ r ∈ tables.store.rows,
    r.key = row.storeKey ∧ r.sequenceNumber = row.sequenceNumber

/-- **The numbers of typed rows are those of their logs**: each is that of the row of
`event_store` with the same transaction, place and timestamp, and rows with
different keys have different numbers, in one table or in two. -/
structure Aligned (tables : EventTables) : Prop where
  exists_row : ∀ type, ∀ row ∈ tables.typed type, ∃ r ∈ tables.store.rows, r.key = row.storeKey
  number_eq : ∀ type, ∀ row ∈ tables.typed type, ∀ r ∈ tables.store.rows,
    r.key = row.storeKey → row.sequenceNumber = r.sequenceNumber
  number_ne : ∀ type, ∀ row ∈ tables.typed type, ∀ row' ∈ tables.typed type,
    row.key ≠ row'.key → row.sequenceNumber ≠ row'.sequenceNumber
  number_ne_of_storeKey_ne : ∀ type type', ∀ row ∈ tables.typed type,
    ∀ row' ∈ tables.typed type', row.storeKey ≠ row'.storeKey →
      row.sequenceNumber ≠ row'.sequenceNumber

variable {tables tables' : EventTables}

theorem Numbered.aligned (h : tables.Numbered) : tables.Aligned := by
  have hne : ∀ type type', ∀ row ∈ tables.typed type, ∀ row' ∈ tables.typed type',
      row.storeKey ≠ row'.storeKey → row.sequenceNumber ≠ row'.sequenceNumber := by
    intro type type' row hrow row' hrow' hkey hnumber
    obtain ⟨r, hr, hrkey, hrnumber⟩ := h.stored type row hrow
    obtain ⟨r', hr', hrkey', hrnumber'⟩ := h.stored type' row' hrow'
    have hsame : r = r' := h.numbered.rows_inj hr hr'
      (hrnumber.trans (hnumber.trans hrnumber'.symm))
    exact hkey (hrkey.symm.trans (hsame ▸ hrkey'))
  refine ⟨fun type row hrow => ?_, fun type row hrow r hr hkey => ?_,
    fun type row hrow row' hrow' hkey => ?_, hne⟩
  · obtain ⟨r, hr, hkey, -⟩ := h.stored type row hrow
    exact ⟨r, hr, hkey⟩
  · obtain ⟨r', hr', hkey', hnumber⟩ := h.stored type row hrow
    rw [h.wellKept.byKey r hr r' hr' (hkey.trans hkey'.symm), hnumber]
  · -- the key of a typed row is read off its key in `event_store`
    refine hne type type row hrow row' hrow' fun hstore => hkey ?_
    have hid : row.logId = row'.logId := congrArg Prod.fst hstore
    have htime : row.event.header.blockTimestamp = row'.event.header.blockTimestamp :=
      congrArg Prod.snd hstore
    unfold TypedRow.key
    rw [hid, htime, h.type_eq type row hrow, h.type_eq type row' hrow']

theorem numbered_start : ({} : EventTables).Numbered where
  numbered := EventTable.numbered_empty
  quiet := ⟨rfl, rfl⟩
  wellKept :=
    { nodup := List.nodup_nil
      byKey := fun _ hr => absurd hr List.not_mem_nil
      canonical := fun _ hr => absurd hr List.not_mem_nil }
  type_eq _ _ hrow := absurd hrow List.not_mem_nil
  stored _ _ hrow := absurd hrow List.not_mem_nil

/-- **What a call has sent to `event_store`**, before it asks for the numbers. -/
theorem Numbered.exists_store (h : tables.Numbered) (call : InsertCall) :
    ∃ store, tables.store.bulkInsertEventStore 0 call.ingestedAt call.events = some store
      ∧ store.Numbered ∧ (∀ p ∈ store.pending, p.transaction = 0) ∧ store.drawn = []
      ∧ WellKept (store.visibleTo 0) ∧ tables.store.rows ⊆ store.visibleTo 0
      ∧ ∀ event ∈ call.typed, ∃ r ∈ store.visibleTo 0, r.key = event.header.key := by
  have hpending : ∀ p ∈ tables.store.pending, p.transaction = 0 := fun p hp =>
    absurd (h.quiet.pending_eq ▸ hp) List.not_mem_nil
  obtain ⟨store, hstore, -, hpending', hdrawn, hvisible⟩ :=
    EventTable.bulkInsertEventStore_eq call.ingestedAt call.events hpending h.quiet.drawn_eq
  have hnumbered := h.numbered.bulkInsertEventStore hstore
  rw [EventTable.visibleTo_eq hpending, h.quiet.pending_eq, List.map_nil, List.append_nil]
    at hvisible
  refine ⟨store, hstore, hnumbered, hpending', hdrawn, ⟨?_, ?_, ?_⟩, ?_, ?_⟩
  · -- the visible rows have different numbers
    refine List.Nodup.of_map StoredEvent.sequenceNumber ?_
    rw [EventTable.visibleTo_eq hpending', List.map_append, List.map_map]
    have hnumbers := hnumbered.nodup
    rw [EventTable.numbers, ← List.append_assoc] at hnumbers
    exact (List.nodup_append.mp hnumbers).1
  · rw [hvisible]
    exact h.wellKept.byKey.insertAll
  · intro r hr
    rw [hvisible] at hr
    obtain hr | hr := Distinct.mem_of_mem_insertAll hr
    · exact h.wellKept.canonical r hr
    · obtain ⟨record, -, number, rfl⟩ := EventRecord.mem_numbered hr
      rfl
  · rw [hvisible]
    exact Distinct.subset_insertAll
  · intro event hevent
    obtain ⟨record, hrecord, hkey⟩ := call.exists_record event hevent
    obtain ⟨number, hnumber⟩ := EventRecord.exists_mem_numbered hrecord
    rw [hvisible, ← hkey]
    exact Distinct.exists_key_insertAll hnumber

/-- **The chunks make no difference**: a call does what it would do without them, and
does not panic. -/
theorem Numbered.insertCall_eq (h : tables.Numbered) (call : InsertCall) :
    tables.insertCall call
      = okOr (tables.insertEvents 0 call.ingestedAt call.events call.typed call.type)
        .database := by
  obtain ⟨store, hstore, -, -, -, hkept, -, hstored⟩ := h.exists_store call
  have hlength : call.typed.length
      ≤ (fetchSequenceNumbers (store.visibleTo 0) (call.typed.map TypedEvent.header)).length := by
    rw [hkept.fetchSequenceNumbers_header hstored, List.length_map]
  have htyped : insertTypedInChunks call.chunkSize call.typed
      (fetchSequenceNumbers (store.visibleTo 0) (call.typed.map TypedEvent.header))
      (tables.typed call.type) = okOr (insertTypedRows call.typed
        (fetchSequenceNumbers (store.visibleTo 0) (call.typed.map TypedEvent.header))
        (tables.typed call.type)) .database :=
    insertTypedInChunks_eq call.one_le_chunkSize hlength _
  unfold insertCall insertEvents
  split
  · rfl
  · rw [bulkInsertInChunks_eq call.one_le_chunkSize, hstore]
    simp only [fetchInChunks_eq call.one_le_chunkSize, Option.bind_eq_bind, okOr_bind]
    show insertTypedInChunks call.chunkSize call.typed
      (fetchSequenceNumbers (store.visibleTo 0) (call.typed.map TypedEvent.header))
      (tables.typed call.type) >>= _ = _
    rw [htyped]
    rfl

/-- A row that a call pairs with a number is of one of its logs, and the number is
that of the row of the log. -/
theorem mem_zipWith_numberAt {typed : List TypedEvent} {number : LogId × ℤ → ℕ} {row : TypedRow}
    (h : row ∈ List.zipWith TypedRow.mk typed (typed.map fun event => number event.header.key)) :
    row.event ∈ typed ∧ row.sequenceNumber = number row.storeKey := by
  rw [List.zipWith_map_right, List.zipWith_self] at h
  obtain ⟨event, hevent, rfl⟩ := List.mem_map.mp h
  exact ⟨hevent, rfl⟩

/-- **What is so in every state is so after a call.** -/
theorem Numbered.insertEvents (h : tables.Numbered) (call : InsertCall)
    (hcall : tables.insertEvents 0 call.ingestedAt call.events call.typed call.type
      = some tables') : tables'.Numbered := by
  obtain ⟨store, hstore, hnumbered, hpending, hdrawn, hkept, hsubset, hstored⟩ :=
    h.exists_store call
  unfold EventTables.insertEvents at hcall
  split at hcall
  · cases hcall
    exact h
  simp only [hstore, Option.bind_eq_bind, Option.bind_some, Option.bind_eq_some_iff,
    Option.pure_def, Option.some.injEq] at hcall
  obtain ⟨rows, htyped, store', hcommit, rfl⟩ := hcall
  obtain ⟨hquiet, hrows⟩ := EventTable.Quiet.of_commit hpending hdrawn hcommit
  rw [hkept.fetchSequenceNumbers_header hstored] at htyped
  obtain ⟨-, hnew⟩ := insertTypedRows_eq_some htyped
  -- a row of a typed table was there, or is one of the call
  have hrow : ∀ type, ∀ row ∈ Function.update tables.typed call.type rows type,
      row ∈ tables.typed type ∨ type = call.type ∧ row.event ∈ call.typed
        ∧ row.sequenceNumber = numberAt (store.visibleTo 0) row.storeKey := by
    intro type row hrow
    by_cases htype : type = call.type
    · subst htype
      rw [Function.update_self, hnew] at hrow
      exact (Distinct.mem_of_mem_insertAll hrow).imp_right fun hrow =>
        ⟨rfl, mem_zipWith_numberAt hrow⟩
    · rw [Function.update_of_ne htype] at hrow
      exact .inl hrow
  refine ⟨hnumbered.commit hcommit, hquiet, hrows ▸ hkept, fun type row hmem => ?_,
    fun type row hmem => ?_⟩
  · obtain hold | ⟨rfl, hevent, -⟩ := hrow type row hmem
    · exact h.type_eq type row hold
    · exact call.type_eq row.event hevent
  · show ∃ r ∈ store'.rows, _
    rw [hrows]
    obtain hold | ⟨rfl, hevent, hnumber⟩ := hrow type row hmem
    · obtain ⟨r, hr, hkey⟩ := h.stored type row hold
      exact ⟨r, hsubset hr, hkey⟩
    · obtain ⟨r, hr, hkey⟩ := hstored row.event hevent
      refine ⟨r, hr, hkey, ?_⟩
      rw [hnumber, TypedRow.storeKey, ← hkey, hkept.numberAt_eq hr]

end EventTables

/-- The call that a handler makes for a chunk of logs of its type: it computes both rows of
each of them. -/
def InsertCall.ofChunk {fmt : Formats} {chain : Chain} {type : EventType} {chunkSize : ℕ}
    (ingestedAt : ℤ) {chunk : List Delivered} {typed : List TypedEvent} (hsize : 1 ≤ chunkSize)
    (htypes : ∀ d ∈ chunk, (d.log chain).event.type = type)
    (htyped : chunk.mapM (fun d => d.typed fmt chain) = some typed) : InsertCall where
  type := type
  chunkSize := chunkSize
  ingestedAt := ingestedAt
  events := chunk.map fun d => d.record fmt chain
  typed := typed
  one_le_chunkSize := hsize
  type_eq event hevent := by
    obtain ⟨d, hd, hdtyped⟩ := (mapM_eq_some htyped).2.1 event hevent
    exact (EventTables.header_type_of_typed hdtyped).2.trans (htypes d hd)
  exists_record event hevent := by
    obtain ⟨d, hd, hdtyped⟩ := (mapM_eq_some htyped).2.1 event hevent
    refine ⟨d.record fmt chain, List.mem_map_of_mem hd, ?_⟩
    rw [(EventTables.header_type_of_typed hdtyped).1]
    rfl

namespace EventTables

variable {tables tables' : EventTables} {fmt : Formats} {chain : Chain} {type : EventType}
  {ingestedAt : ℤ} {chunk : List Delivered} {typed : List TypedEvent} {chunkSize : ℕ}

/-- **What a handler inserts is what becomes of its chunk**, whatever the size of the chunks
of the call. -/
theorem Numbered.insertCall_ofChunk (h : tables.Numbered) (hsize : 1 ≤ chunkSize)
    (htypes : ∀ d ∈ chunk, (d.log chain).event.type = type)
    (htyped : chunk.mapM (fun d => d.typed fmt chain) = some typed) :
    tables.insertCall (.ofChunk ingestedAt hsize htypes htyped)
      = okOr (tables.insertChunk fmt chain type ingestedAt chunk) .database := by
  rw [h.insertCall_eq]
  unfold insertChunk
  rw [if_pos htypes]
  simp only [htyped, Option.bind_eq_bind, Option.bind_some, insertOf_eq]
  rfl

/-- **What a handler inserts is such a call**, whatever the size of its chunks: a
handler computes both rows of each of its logs. -/
theorem Numbered.exists_insertCall (h : tables.Numbered)
    (hchunk : tables.insertChunk fmt chain type ingestedAt chunk = some tables')
    (hsize : 1 ≤ chunkSize) :
    ∃ call : InsertCall, call.type = type ∧ call.chunkSize = chunkSize
      ∧ call.events = chunk.map (fun d => d.record fmt chain)
      ∧ tables.insertCall call = .ok tables' := by
  obtain ⟨htypes, hrest⟩ := Option.ite_none_right_eq_some.mp hchunk
  obtain ⟨typed, htyped, -⟩ := Option.bind_eq_some_iff.mp hrest
  refine ⟨.ofChunk ingestedAt hsize htypes htyped, rfl, rfl, rfl, ?_⟩
  rw [h.insertCall_ofChunk hsize htypes htyped, hchunk]
  rfl

/-! ## Every sequence of calls -/

/-- A call returns, or the database fails one and the numbers it was handed are
lost. -/
inductive CallAction where
  | calls (call : InsertCall)
  | fails (numbers : ℕ)

/-- What becomes of the tables, where a call returns. -/
def callStep (tables : EventTables) : CallAction → Option EventTables
  | .calls call => (tables.insertCall call).toOption
  | .fails numbers => some { tables with
      store := { tables.store with nextSequence := tables.store.nextSequence + numbers } }

theorem Numbered.callStep (h : tables.Numbered) {a : CallAction}
    (hstep : tables.callStep a = some tables') : tables'.Numbered := by
  cases a with
  | calls call =>
    have hcall := toOption_eq_some.mp hstep
    rw [h.insertCall_eq] at hcall
    exact h.insertEvents call (okOr_eq_ok.mp hcall)
  | fails numbers =>
    cases hstep
    exact
      { h with
        numbered := ⟨h.numbered.nodup, fun n hn =>
          Nat.lt_add_right numbers (h.numbered.lt_next n hn)⟩
        quiet := ⟨h.quiet.pending_eq, h.quiet.drawn_eq⟩ }

end EventTables

open EventTables

/-- **The numbers of typed rows are those of their logs.** Whatever calls are made,
with whatever repetitions and in chunks of whatever size, after each call that
returned the typed rows are aligned with `event_store`; and no call panics. -/
theorem dualWrite_aligned (actions : List CallAction) :
    Run.Always callStep
      (fun tables => tables.Aligned ∧ ∀ call, tables.insertCall call ≠ .error .panicked) {}
      actions := by
  refine Run.Always.of_invariant (I := EventTables.Numbered)
    (fun _ _ _ h hstep => h.callStep hstep) (fun tables h => ⟨h.aligned, fun call hpanic => ?_⟩)
    numbered_start actions
  rw [h.insertCall_eq] at hpanic
  cases hinsert : tables.insertEvents 0 call.ingestedAt call.events call.typed call.type with
  | none =>
    rw [hinsert] at hpanic
    cases hpanic
  | some tables' =>
    rw [hinsert] at hpanic
    cases hpanic
