import IntuitionCore.Ingestion.DualWrite
import IntuitionCore.Library.Run

/-!
# Logs that are delivered again

A handler is given logs in calls, cuts each call into chunks, and inserts each
chunk in a transaction of its own. It may fail between two chunks, and what it
did not acknowledge is delivered again, in other groups. A log that comes
without the time of its block is given the time it is.

There is one row for each log as long as every delivery of a log that is
inserted computes the timestamp of the deliveries of it before; a delivery that
computes another one adds a second row to `event_store`, and to three of the
typed tables.
-/

/-- A log as it is on the chain. -/
structure ChainLog where
  blockNumber : ℕ
  blockTimestamp : ℤ
  blockHash : Bytes32
  event : MultiVaultEvent

/-- The logs of a chain, by transaction and place. -/
abbrev Chain := Bytes32 → ℕ → ChainLog

/-- A log as it is given to a handler. -/
structure Delivered where
  transactionHash : Bytes32
  logIndex : ℕ
  /-- Whether it comes with the time of its block. -/
  timestamped : Bool
  /-- The time it is when the handler looks. -/
  now : ℤ

namespace Delivered

variable (fmt : Formats) (chain : Chain) (d : Delivered)

def log : ChainLog := chain d.transactionHash d.logIndex

def txInformation : TxInformation where
  blockNumber := (d.log chain).blockNumber
  blockTimestamp := if d.timestamped then some (d.log chain).blockTimestamp else none
  blockHash := (d.log chain).blockHash
  transactionHash := d.transactionHash
  logIndex := d.logIndex

/-- The columns of the rows of a log that its transaction gives. -/
def header : LogHeader := (d.txInformation chain).header fmt d.now

/-- The timestamp the handler computes. -/
def timestamp : ℤ := timestampToDatetime (d.txInformation chain) d.now

/-- The row of a log for `event_store`. -/
def record : EventRecord := ((d.log chain).event.record fmt (d.header fmt chain)).toEventRecord fmt

/-- The row of a log for the table of its type. -/
def typed : Option TypedEvent := (d.log chain).event.typed fmt (d.header fmt chain)

end Delivered

namespace EventTables

/-- A chunk is inserted, or fails and loses the numbers it was handed. -/
inductive Action where
  | inserts (type : EventType) (ingestedAt : ℤ) (chunk : List Delivered)
  | fails (numbers : ℕ)

variable (fmt : Formats) (chain : Chain)

/-- The handler of a type inserts a chunk of logs of the type. -/
def insertChunk (tables : EventTables) (type : EventType) (ingestedAt : ℤ)
    (chunk : List Delivered) : Option EventTables :=
  if ∀ d ∈ chunk, (d.log chain).event.type = type then do
    let events := chunk.map fun d => d.record fmt chain
    let typed ← chunk.mapM fun d => d.typed fmt chain
    tables.insertOf 0 ingestedAt events typed type
  else none

/-- What an action does, where it is possible. -/
def step (tables : EventTables) : Action → Option EventTables
  | .inserts type ingestedAt chunk => tables.insertChunk fmt chain type ingestedAt chunk
  | .fails numbers => some { tables with
      store := { tables.store with nextSequence := tables.store.nextSequence + numbers } }

/-- The call of a handler, in chunks of a size. It may end after any of them. -/
def handle (type : EventType) (ingestedAt : ℤ) (chunkSize : ℕ) (results : List Delivered) :
    List Action :=
  (results.toChunks chunkSize).map (.inserts type ingestedAt)

/-- **There is one row for each log**: `event_store` has at most one canonical
row of a log, and each typed table has one row of exactly those logs of its type
that `event_store` has. -/
structure OneRowPerLog (tables : EventTables) : Prop where
  store : ∀ r ∈ tables.store.rows, ∀ r' ∈ tables.store.rows, r.isCanonical = true →
    r'.isCanonical = true → r.logId = r'.logId → r = r'
  typed : ∀ type, Distinct.ByKey TypedRow.logId (tables.typed type)
  typed_iff : ∀ type id, (∃ row ∈ tables.typed type, row.logId = id)
    ↔ ∃ r ∈ tables.store.rows, r.isCanonical = true ∧ r.eventType = type.asStr ∧ r.logId = id

/-- **The deliveries of a log agree on its timestamp**: a chunk that is inserted
computes for each of its logs the timestamp of the row there is, and one
timestamp only. -/
def TimestampsAgree (tables : EventTables) : Action → Prop
  | .inserts _ _ chunk =>
    (∀ d ∈ chunk, ∀ r ∈ tables.store.rows, r.logId = (d.header fmt chain).logId →
      r.blockTimestamp = d.timestamp chain)
    ∧ ∀ d ∈ chunk, ∀ d' ∈ chunk, (d.header fmt chain).logId = (d'.header fmt chain).logId →
      d.timestamp chain = d'.timestamp chain
  | .fails _ => True

/-- What is so in every state. -/
structure Ok (tables : EventTables) : Prop where
  quiet : tables.store.Quiet
  store_byKey : Distinct.ByKey StoredEvent.key tables.store.rows
  typed_byKey : ∀ type, Distinct.ByKey TypedRow.key (tables.typed type)
  canonical : ∀ r ∈ tables.store.rows, r.isCanonical = true
  ofChain : ∀ r ∈ tables.store.rows, ∃ hash index, r.logId = (fmt.debugBytes32 hash, index)
    ∧ r.eventType = (chain hash index).event.type.asStr
  typed_stored : ∀ type, ∀ row ∈ tables.typed type, row.event.type = type
    ∧ ∃ r ∈ tables.store.rows, r.key = (row.logId, row.event.header.blockTimestamp)
      ∧ r.eventType = type.asStr
  stored_typed : ∀ type, ∀ r ∈ tables.store.rows, r.eventType = type.asStr →
    ∃ row ∈ tables.typed type, row.logId = r.logId

variable {fmt : Formats} {chain : Chain} {tables tables' : EventTables} {type : EventType}
  {ingestedAt : ℤ} {chunk : List Delivered}

/-! ## What a chunk writes -/

/-- A typed row has the columns and the type of its log. -/
theorem header_type_of_typed {header : LogHeader} {event : MultiVaultEvent} {typed : TypedEvent}
    (h : event.typed fmt header = some typed) :
    typed.header = header ∧ typed.type = event.type := by
  cases event <;>
    simp only [MultiVaultEvent.typed, AtomCreated.typed, AtomContextRegistered.typed,
      TripleCreated.typed, Deposited.typed, Redeemed.typed, SharePriceChanged.typed,
      ProtocolFeeAccrued.typed, Option.bind_eq_bind, Option.map_eq_some_iff,
      Option.bind_eq_some_iff, Option.pure_def, Option.some.injEq] at h <;>
    grind [TypedEvent.header, TypedEvent.type, MultiVaultEvent.type]

/-- The rows that a chunk leaves, of those that were there and those of its
logs. -/
structure Wrote (fmt : Formats) (chain : Chain) (tables tables' : EventTables) (type : EventType)
    (chunk : List Delivered) : Prop where
  quiet : tables'.store.Quiet
  store_byKey : Distinct.ByKey StoredEvent.key tables.store.rows →
    Distinct.ByKey StoredEvent.key tables'.store.rows
  typed_byKey : (∀ type, Distinct.ByKey TypedRow.key (tables.typed type)) →
    ∀ type, Distinct.ByKey TypedRow.key (tables'.typed type)
  store_subset : tables.store.rows ⊆ tables'.store.rows
  typed_subset : ∀ type, tables.typed type ⊆ tables'.typed type
  of_store : ∀ r ∈ tables'.store.rows, r ∈ tables.store.rows
    ∨ ∃ d ∈ chunk, ∃ number at', r = (d.record fmt chain).toRow number at'
  of_typed : ∀ type', ∀ row ∈ tables'.typed type', row ∈ tables.typed type'
    ∨ type' = type ∧ ∃ d ∈ chunk, d.typed fmt chain = some row.event
  exists_store : ∀ d ∈ chunk, ∃ r ∈ tables'.store.rows,
    r.key = ((d.header fmt chain).logId, d.timestamp chain)
  exists_typed : ∀ d ∈ chunk, ∃ row ∈ tables'.typed type,
    row.logId = (d.header fmt chain).logId
  types : ∀ d ∈ chunk, (d.log chain).event.type = type

/-- **What a chunk writes.** -/
theorem wrote_of_insertChunk (hquiet : tables.store.Quiet)
    (h : tables.insertChunk fmt chain type ingestedAt chunk = some tables') :
    Wrote fmt chain tables tables' type chunk := by
  unfold insertChunk at h
  split at h
  · next htypes =>
    simp only [insertOf_eq, Option.bind_eq_bind, Option.bind_eq_some_iff] at h
    obtain ⟨typed, htyped, hinsert⟩ := h
    obtain ⟨hlength, hof', hall'⟩ := Result.mapM_eq_some htyped
    obtain ⟨hquiet', hstore, new, hnew, htable⟩ := insertEvents_eq_some hquiet
      ((List.length_map _).trans hlength) hinsert
    have htable_self : tables'.typed type
        = Distinct.insertAll TypedRow.key (tables.typed type) new := by
      rw [htable, Function.update_self]
    have htable_ne : ∀ type', type' ≠ type → tables'.typed type' = tables.typed type' :=
      fun type' hne => by rw [htable, Function.update_of_ne hne]
    -- the new typed rows are those of the logs of the chunk, one for each
    have hof : ∀ row ∈ new, ∃ d ∈ chunk, d.typed fmt chain = some row.event := fun row hrow =>
      hof' row.event (hnew ▸ List.mem_map_of_mem hrow)
    have hall : ∀ d ∈ chunk, ∃ row ∈ new, d.typed fmt chain = some row.event := by
      intro d hd
      obtain ⟨e, he, hde⟩ := hall' d hd
      obtain ⟨row, hrow, rfl⟩ := List.mem_map.mp (hnew ▸ he)
      exact ⟨row, hrow, hde⟩
    refine ⟨hquiet', fun hkey => hstore ▸ hkey.insertAll, fun hkey type' => ?_,
      hstore ▸ Distinct.subset_insertAll, fun type' => ?_, fun r hr => ?_, fun type' row hrow => ?_,
      fun d hd => ?_, fun d hd => ?_, htypes⟩
    · by_cases hne : type' = type
      · subst hne
        rw [htable_self]
        exact (hkey _).insertAll
      · rw [htable_ne type' hne]
        exact hkey type'
    · by_cases hne : type' = type
      · subst hne
        rw [htable_self]
        exact Distinct.subset_insertAll
      · rw [htable_ne type' hne]
        exact fun _ h => h
    · rw [hstore] at hr
      refine (Distinct.mem_of_mem_insertAll hr).imp_right fun hr => ?_
      obtain ⟨record, hrecord, number, rfl⟩ := EventRecord.mem_numbered hr
      obtain ⟨d, hd, rfl⟩ := List.mem_map.mp hrecord
      exact ⟨d, hd, number, _, rfl⟩
    · by_cases hne : type' = type
      · subst hne
        rw [htable_self] at hrow
        exact (Distinct.mem_of_mem_insertAll hrow).imp_right fun hrow => ⟨rfl, hof row hrow⟩
      · rw [htable_ne type' hne] at hrow
        exact .inl hrow
    · obtain ⟨number, hnumber⟩ := EventRecord.exists_mem_numbered
        (List.mem_map_of_mem (f := fun d : Delivered => d.record fmt chain) hd)
      rw [hstore]
      exact Distinct.exists_key_insertAll hnumber
    · obtain ⟨row, hrow, hd'⟩ := hall d hd
      obtain ⟨r, hr, hkey⟩ : ∃ r ∈ tables'.typed type, r.key = row.key := by
        rw [htable_self]
        exact Distinct.exists_key_insertAll hrow
      refine ⟨r, hr, ?_⟩
      rw [show r.logId = row.logId from congrArg Prod.fst hkey]
      exact congrArg LogHeader.logId (header_type_of_typed hd').1
  · cases h

/-! ## What is so in every state -/

theorem Ok.of_store (h : Ok fmt chain tables) {store : EventTable} (hquiet : store.Quiet)
    (hrows : store.rows = tables.store.rows) : Ok fmt chain { tables with store } where
  quiet := hquiet
  store_byKey := hrows ▸ h.store_byKey
  typed_byKey := h.typed_byKey
  canonical := hrows ▸ h.canonical
  ofChain := hrows ▸ h.ofChain
  typed_stored := hrows ▸ h.typed_stored
  stored_typed := hrows ▸ h.stored_typed

/-- A log is told by its text. -/
theorem log_eq (hfmt : fmt.Lawful) {d : Delivered} {hash : Bytes32} {index : ℕ}
    (h : (d.header fmt chain).logId = (fmt.debugBytes32 hash, index)) :
    d.log chain = chain hash index := by
  have hhash : d.transactionHash = hash :=
    hfmt.debugBytes32_injective (congrArg Prod.fst h)
  have hindex : d.logIndex = index := congrArg Prod.snd h
  rw [← hhash, ← hindex]
  rfl

/-- A chunk keeps what is so in every state. -/
theorem Ok.of_wrote (hfmt : fmt.Lawful) (h : Ok fmt chain tables)
    (hw : Wrote fmt chain tables tables' type chunk) : Ok fmt chain tables' := by
  have hofChain : ∀ r ∈ tables'.store.rows, ∃ hash index,
      r.logId = (fmt.debugBytes32 hash, index)
        ∧ r.eventType = (chain hash index).event.type.asStr := by
    intro r hr
    obtain hr | ⟨d, -, number, at', rfl⟩ := hw.of_store r hr
    · exact h.ofChain r hr
    · exact ⟨d.transactionHash, d.logIndex, rfl, rfl⟩
  refine ⟨hw.quiet, hw.store_byKey h.store_byKey, hw.typed_byKey h.typed_byKey, fun r hr => ?_,
    hofChain, fun type' row hrow => ?_, fun type' r hr htype => ?_⟩
  · obtain hr | ⟨d, -, number, at', rfl⟩ := hw.of_store r hr
    · exact h.canonical r hr
    · rfl
  · obtain hrow | ⟨rfl, d, hd, htyped⟩ := hw.of_typed type' row hrow
    · obtain ⟨htype, r, hr, hkey⟩ := h.typed_stored type' row hrow
      exact ⟨htype, r, hw.store_subset hr, hkey⟩
    · obtain ⟨hheader, htype⟩ := header_type_of_typed htyped
      obtain ⟨r, hr, hkey⟩ := hw.exists_store d hd
      have hlogId : row.logId = (d.header fmt chain).logId := congrArg LogHeader.logId hheader
      refine ⟨htype.trans (hw.types d hd), r, hr, ?_, ?_⟩
      · rw [hkey, hlogId, hheader]
        rfl
      · -- the row that was there is of the same log, hence of the same type
        obtain ⟨hash, index, hid, hrtype⟩ := hofChain r hr
        have hlog := log_eq hfmt ((congrArg Prod.fst hkey).symm.trans hid)
        rw [hrtype, ← hlog, hw.types d hd]
  · obtain hr | ⟨d, hd, number, at', rfl⟩ := hw.of_store r hr
    · obtain ⟨row, hrow, hid⟩ := h.stored_typed type' r hr htype
      exact ⟨row, hw.typed_subset type' hrow, hid⟩
    · have htype' : type' = type := by
        have hasStr : (d.log chain).event.type.asStr = type'.asStr := htype
        have := congrArg EventType.fromStr hasStr
        rw [EventType.fromStr_asStr, EventType.fromStr_asStr, hw.types d hd] at this
        exact (Option.some.inj this).symm
      subst htype'
      exact hw.exists_typed d hd

variable (fmt chain) in
theorem ok_start : Ok fmt chain {} where
  quiet := ⟨rfl, rfl⟩
  store_byKey _ hr := absurd hr List.not_mem_nil
  typed_byKey _ _ hr := absurd hr List.not_mem_nil
  canonical _ hr := absurd hr List.not_mem_nil
  ofChain _ hr := absurd hr List.not_mem_nil
  typed_stored _ _ hr := absurd hr List.not_mem_nil
  stored_typed _ _ hr := absurd hr List.not_mem_nil

/-- What is so in every state stays so. -/
theorem Ok.step (hfmt : fmt.Lawful) {a : Action} (h : Ok fmt chain tables)
    (hs : tables.step fmt chain a = some tables') : Ok fmt chain tables' := by
  cases a with
  | inserts type ingestedAt chunk => exact h.of_wrote hfmt (wrote_of_insertChunk h.quiet hs)
  | fails numbers =>
    cases hs
    exact h.of_store ⟨h.quiet.pending_eq, h.quiet.drawn_eq⟩ rfl

/-- **There is one row for each log if `event_store` has one**: the typed tables
follow. -/
theorem Ok.oneRowPerLog_iff (h : Ok fmt chain tables) :
    OneRowPerLog tables ↔ Distinct.ByKey StoredEvent.logId tables.store.rows := by
  refine ⟨fun hone r hr r' hr' => hone.store r hr r' hr' (h.canonical r hr) (h.canonical r' hr'),
    fun hstore => ⟨fun r hr r' hr' _ _ => hstore r hr r' hr',
      fun type row hrow row' hrow' hid => ?_,
      fun type id => ⟨?_, ?_⟩⟩⟩
  · -- the rows of one log in `event_store` are one, so the typed ones have one timestamp
    obtain ⟨htype, r, hr, hkey, -⟩ := h.typed_stored type row hrow
    obtain ⟨htype', r', hr', hkey', -⟩ := h.typed_stored type row' hrow'
    have hsame : r = r' := hstore r hr r' hr'
      ((congrArg Prod.fst hkey).trans (hid.trans (congrArg Prod.fst hkey').symm))
    have htime : row.event.header.blockTimestamp = row'.event.header.blockTimestamp := by
      subst hsame
      exact congrArg Prod.snd (hkey.symm.trans hkey')
    refine h.typed_byKey type row hrow row' hrow' ?_
    unfold TypedRow.key
    rw [hid, htime, htype, htype']
  · rintro ⟨row, hrow, rfl⟩
    obtain ⟨-, r, hr, hkey, htype⟩ := h.typed_stored type row hrow
    exact ⟨r, hr, h.canonical r hr, htype, congrArg Prod.fst hkey⟩
  · rintro ⟨r, hr, -, htype, rfl⟩
    exact h.stored_typed type r hr htype

/-- **A chunk keeps one row for each log exactly if its deliveries agree with
the rows there are, and with each other.** -/
theorem oneRowPerLog_step_iff (hfmt : fmt.Lawful) {a : Action} (h : Ok fmt chain tables)
    (hone : OneRowPerLog tables) (hs : tables.step fmt chain a = some tables') :
    OneRowPerLog tables' ↔ TimestampsAgree fmt chain tables a := by
  rw [(h.step hfmt hs).oneRowPerLog_iff]
  rw [h.oneRowPerLog_iff] at hone
  cases a with
  | fails numbers =>
    cases hs
    exact iff_of_true hone trivial
  | inserts type ingestedAt chunk =>
    have hw := wrote_of_insertChunk h.quiet hs
    constructor
    · -- each delivery has a row with its timestamp
      refine fun hone' => ⟨fun d hd r hr hid => ?_, fun d hd d' hd' hid => ?_⟩
      · obtain ⟨r', hr', hkey⟩ := hw.exists_store d hd
        rw [hone' r (hw.store_subset hr) r' hr' (hid.trans (congrArg Prod.fst hkey).symm)]
        exact congrArg Prod.snd hkey
      · obtain ⟨r, hr, hkey⟩ := hw.exists_store d hd
        obtain ⟨r', hr', hkey'⟩ := hw.exists_store d' hd'
        have hsame : r = r' := hone' r hr r' hr'
          ((congrArg Prod.fst hkey).trans (hid.trans (congrArg Prod.fst hkey').symm))
        subst hsame
        exact congrArg Prod.snd (hkey.symm.trans hkey')
    · rintro ⟨hstored, hchunk⟩ r hr r' hr' hid
      -- rows of one log have one timestamp, hence one key
      have htime : r.blockTimestamp = r'.blockTimestamp := by
        obtain hr | ⟨d, hd, _, _, rfl⟩ := hw.of_store r hr <;>
          obtain hr' | ⟨d', hd', _, _, rfl⟩ := hw.of_store r' hr'
        · rw [hone r hr r' hr' hid]
        · exact hstored d' hd' r hr hid
        · exact (hstored d hd r' hr' hid.symm).symm
        · exact hchunk d hd d' hd' hid
      exact hw.store_byKey h.store_byKey r hr r' hr' (Prod.ext hid htime)

end EventTables

/-- **There is one row for each log exactly if the deliveries of each log agree
on its timestamp**, in whatever calls and chunks they come, and wherever a
handler fails. -/
theorem oneRowPerLog_iff_timestampsAgree {fmt : Formats} (hfmt : fmt.Lawful) (chain : Chain)
    (schedule : List EventTables.Action) :
    Run.Always (EventTables.step fmt chain) EventTables.OneRowPerLog {} schedule
      ↔ Run.EachStep (EventTables.step fmt chain) (EventTables.TimestampsAgree fmt chain) {}
        schedule :=
  Run.always_iff_eachStep (I := EventTables.Ok fmt chain) (fun _ _ _ h ha => h.step hfmt ha)
    (fun _ _ _ h hone ha => EventTables.oneRowPerLog_step_iff hfmt h hone ha)
    (EventTables.ok_start fmt chain)
    ((EventTables.ok_start fmt chain).oneRowPerLog_iff.mpr fun _ hr => absurd hr List.not_mem_nil)
    schedule

/-! ## A deposit that is delivered without its time -/

/-- A chain of one deposit. -/
def depositChain : Chain := fun _ _ =>
  ⟨100, 1700000000, 1, .deposited ⟨0xa, 0xa, 7, 1, 10, 10, 10, 10, 0⟩⟩

/-- The deposit is delivered without the time of its block, and again with it. -/
def redelivery : List EventTables.Action :=
  EventTables.handle .deposited 5 50000 [⟨2, 0, false, 5⟩]
    ++ EventTables.handle .deposited 6 50000 [⟨2, 0, true, 6⟩]

/-- There is one row for the deposit exactly if its deliveries agree. -/
theorem oneRowPerLog_iff_redelivery :
    Run.Always (EventTables.step .exact depositChain) EventTables.OneRowPerLog {} redelivery
      ↔ Run.EachStep (EventTables.step .exact depositChain)
        (EventTables.TimestampsAgree .exact depositChain) {} redelivery :=
  oneRowPerLog_iff_timestampsAgree Formats.exact_lawful depositChain redelivery

/-- **The deposit has two rows.** -/
theorem redelivery_not_oneRowPerLog :
    ¬ Run.Always (EventTables.step .exact depositChain) EventTables.OneRowPerLog {} redelivery := by
  let id : LogId := (Formats.exact.debugBytes32 2, 0)
  have hkeys : (Run.follow (EventTables.step .exact depositChain) {} redelivery).map
      (fun tables => tables.store.rows.map fun r => (r.isCanonical, r.key))
        = some [(true, id, 5), (true, id, 1700000000)] := by decide +kernel
  intro halways
  obtain ⟨tables, hfollow, hrows⟩ := Option.map_eq_some_iff.mp hkeys
  obtain ⟨r, rows, hr, hrkey, hrows⟩ := List.map_eq_cons_iff.mp hrows
  obtain ⟨r', rows', hr', hrkey', -⟩ := List.map_eq_cons_iff.mp hrows
  have hsame : r = r' := (halways.of_follow hfollow).store r (by simp [hr]) r' (by simp [hr, hr'])
    (congrArg Prod.fst hrkey) (congrArg Prod.fst hrkey')
    ((congrArg (·.2.1) hrkey).trans (congrArg (·.2.1) hrkey').symm)
  have htime : ((true, id, 5) : Bool × LogId × ℤ) = (true, id, 1700000000) :=
    hrkey.symm.trans (hsame ▸ hrkey')
  exact absurd (congrArg (fun p : Bool × LogId × ℤ => p.2.2) htime) (by decide)
