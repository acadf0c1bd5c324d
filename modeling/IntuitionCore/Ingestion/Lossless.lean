import IntuitionCore.Entities.Plan
import IntuitionCore.Ingestion.Alignment
import IntuitionCore.Ingestion.Columns

/-!
# Ingestion is lossless

A log of the contract becomes a JSON object and a row of columns; either is stored, read
again, and parsed as the record of its type. What a record says of the log can be read off
it: a word or the bytes from hexadecimal digits, an integer from a decimal, the URIs of an
atom one by one. A record is that of a log if the log is what is read off it, and so no
other log could have left it.

Every log that a handler has inserted is given back so by either reader, whatever the sizes
of the deliveries and of the chunks, and whatever was inserted before.
-/

/-! ## Reading a log off a record -/

/-- The number of some bytes, the highest first. -/
def bigEndian (bytes : Bytes) : ℕ := bytes.foldl (fun n byte => n * 256 + byte.toNat) 0

/-- A word of some bytes, from a text of its digits. -/
def wordOf (width : ℕ) (s : String) : Option (BitVec (8 * width)) := do
  let bytes ← hexBytes s
  if bytes.length = width then some (.ofNat (8 * width) (bigEndian bytes)) else none

/-- A 256-bit integer, from a decimal that is one. -/
def u256Of (d : BigDecimal) : Option U256 :=
  if d.val.den = 1 ∧ 0 ≤ d.val.num ∧ d.val.num < 2 ^ 256 then some (.ofNat 256 d.val.num.toNat)
  else none

/-- An 8-bit integer, from an integer that is one. -/
def uint8Of (n : ℤ) : Option UInt8 := if 0 ≤ n ∧ n < 256 then some (.ofNat n.toNat) else none

def AtomCreatedRecord.log (data : AtomCreatedRecord) : Option AtomCreated := do
  return {
    creator := ← wordOf 20 data.creator
    termId := ← wordOf 32 data.termId
    atomData := ← hexBytes data.atomData
    atomWallet := ← wordOf 20 data.atomWallet }

def AtomContextRegisteredRecord.log (data : AtomContextRegisteredRecord) :
    Option AtomContextRegistered := do
  return {
    registrant := ← wordOf 20 data.registrant
    termId := ← wordOf 32 data.termId
    uris := ← data.uris.mapM hexBytes }

def TripleCreatedRecord.log (data : TripleCreatedRecord) : Option TripleCreated := do
  return {
    creator := ← wordOf 20 data.creator
    termId := ← wordOf 32 data.termId
    subjectId := ← wordOf 32 data.subjectId
    predicateId := ← wordOf 32 data.predicateId
    objectId := ← wordOf 32 data.objectId }

def DepositedRecord.log (data : DepositedRecord) : Option Deposited := do
  return {
    sender := ← wordOf 20 data.sender
    receiver := ← wordOf 20 data.receiver
    termId := ← wordOf 32 data.termId
    curveId := ← u256Of data.curveId
    assets := ← u256Of data.assets
    assetsAfterFees := ← u256Of data.assetsAfterFees
    shares := ← u256Of data.shares
    totalShares := ← u256Of data.totalShares
    vaultType := ← uint8Of data.vaultType }

def RedeemedRecord.log (data : RedeemedRecord) : Option Redeemed := do
  return {
    sender := ← wordOf 20 data.sender
    receiver := ← wordOf 20 data.receiver
    termId := ← wordOf 32 data.termId
    curveId := ← u256Of data.curveId
    shares := ← u256Of data.shares
    totalShares := ← u256Of data.totalShares
    assets := ← u256Of data.assets
    fees := ← u256Of data.fees
    vaultType := ← uint8Of data.vaultType }

def SharePriceChangedRecord.log (data : SharePriceChangedRecord) : Option SharePriceChanged := do
  return {
    termId := ← wordOf 32 data.termId
    curveId := ← u256Of data.curveId
    sharePrice := ← u256Of data.sharePrice
    totalAssets := ← u256Of data.totalAssets
    totalShares := ← u256Of data.totalShares
    vaultType := ← uint8Of data.vaultType }

def ProtocolFeeAccruedRecord.log (data : ProtocolFeeAccruedRecord) :
    Option ProtocolFeeAccrued := do
  return {
    epoch := ← u256Of data.epoch
    sender := ← wordOf 20 data.sender
    amount := ← u256Of data.amount }

/-- **The log that an event is read as**, if it is read as one. -/
def ParsedEvent.log : ParsedEvent → Option MultiVaultEvent
  | atomCreated _ data => data.log.map .atomCreated
  | atomContextRegistered _ data => data.log.map .atomContextRegistered
  | tripleCreated _ data => data.log.map .tripleCreated
  | deposited _ data => data.log.map .deposited
  | redeemed _ data => data.log.map .redeemed
  | sharePriceChanged _ data => data.log.map .sharePriceChanged
  | protocolFeeAccrued _ data => data.log.map .protocolFeeAccrued
  | unknown _ => none

/-- **Texts give back what they are of**: words and bytes are printed in hexadecimal digits
after `0x`, and the decimal that is read from an integer is that integer. -/
structure Formats.Exact (fmt : Formats) : Prop extends fmt.Lawful where
  address : ∀ a : Address, wordOf 20 (fmt.debugAddress a) = some a
  word : ∀ b : Bytes32, wordOf 32 (fmt.debugBytes32 b) = some b
  bytes : ∀ bytes : Bytes, hexBytes ("0x" ++ fmt.hexEncode bytes) = some bytes
  u256 : ∀ (n : U256) (d : BigDecimal), fmt.parseDecimal (fmt.u256ToString n) = some d →
    d.val = n.toNat

/-! ## A payload is read as its log -/

section Payloads

variable {fmt : Formats} {obj : JsonObject} {key : String}

theorem uint8Of_toNat (n : UInt8) : uint8Of n.toNat = some n := by
  have hlt : (n.toNat : ℤ) < 256 := by exact_mod_cast n.toNat_lt
  unfold uint8Of
  rw [if_pos ⟨Int.natCast_nonneg _, hlt⟩, Int.toNat_natCast, UInt8.ofNat_toNat]

/-- An integer is read as a decimal that gives it back. -/
theorem Formats.Exact.exists_decimal (hfmt : fmt.Exact) (n : U256) :
    ∃ d, fmt.parseDecimal (fmt.u256ToString n) = some d ∧ u256Of d = some n := by
  obtain ⟨d, hd, -⟩ := hfmt.numericText_parse n
  refine ⟨d, hd, ?_⟩
  have hlt : (n.toNat : ℤ) < 2 ^ 256 := by exact_mod_cast n.isLt
  unfold u256Of
  rw [hfmt.u256 n d hd, Rat.den_natCast, Rat.num_natCast,
    if_pos ⟨rfl, Int.natCast_nonneg _, hlt⟩, Int.toNat_natCast, BitVec.ofNat_toNat,
    BitVec.setWidth_eq]

/-- A list of texts is read as one. -/
theorem JsonObject.strings?_eq {texts : List String}
    (h : obj.lookup key = some (.array (texts.map .string))) : obj.strings? key = some texts := by
  unfold JsonObject.strings?
  rw [h]
  show (texts.map JsonValue.string).mapM _ = some texts
  rw [List.mapM_map]
  exact (Result.mapM_eq_some_map fun _ _ => rfl).trans (congrArg some texts.map_id)

/-- An 8-bit integer is read as one of 32 bits. -/
theorem JsonObject.int32?_eq {n : UInt8} (h : obj.lookup key = some (.number n.toNat)) :
    obj.int32? key = some (n.toNat : ℤ) := by
  have hlt := n.toNat_lt
  unfold JsonObject.int32?
  rw [h]
  exact if_pos ⟨by omega, by omega⟩

theorem AtomCreated.log_read (hfmt : fmt.Exact) (event : AtomCreated) :
    ∃ data, ((event.eventData fmt).toEventData fmt.toExternals).atomCreated = some data
      ∧ data.log = some event := by
  refine ⟨⟨fmt.debugAddress event.creator, fmt.debugBytes32 event.termId,
    "0x" ++ fmt.hexEncode event.atomData, fmt.debugAddress event.atomWallet⟩, ?_, ?_⟩
  · simp [AtomCreated.eventData, JsonObject.toEventData, JsonObject.string?, JsonObject.ofFields,
      Finmap.lookup_insert_of_ne]
  · simp [AtomCreatedRecord.log, hfmt.address, hfmt.word, hfmt.bytes]

theorem AtomContextRegistered.log_read (hfmt : fmt.Exact) (event : AtomContextRegistered) :
    ∃ data, ((event.eventData fmt).toEventData fmt.toExternals).atomContextRegistered = some data
      ∧ data.log = some event := by
  refine ⟨⟨fmt.debugAddress event.registrant, fmt.debugBytes32 event.termId,
    event.uris.map (opaqueBytesToHex fmt)⟩, ?_, ?_⟩
  · have huris : (event.eventData fmt).strings? "uris"
        = some (event.uris.map (opaqueBytesToHex fmt)) := by
      refine JsonObject.strings?_eq ?_
      rw [List.map_map]
      exact Finmap.lookup_insert _
    simp only [JsonObject.toEventData, huris]
    simp [AtomContextRegistered.eventData, JsonObject.string?, JsonObject.ofFields,
      Finmap.lookup_insert_of_ne]
  · -- the bytes of each URI are those that were encoded
    have huris : (event.uris.map (opaqueBytesToHex fmt)).mapM hexBytes = some event.uris := by
      rw [List.mapM_map]
      exact (Result.mapM_eq_some_map fun uri _ => hfmt.bytes uri).trans
        (congrArg some event.uris.map_id)
    simp [AtomContextRegisteredRecord.log, hfmt.address, hfmt.word, huris]

theorem TripleCreated.log_read (hfmt : fmt.Exact) (event : TripleCreated) :
    ∃ data, ((event.eventData fmt).toEventData fmt.toExternals).tripleCreated = some data
      ∧ data.log = some event := by
  refine ⟨⟨fmt.debugAddress event.creator, fmt.debugBytes32 event.termId,
    fmt.debugBytes32 event.subjectId, fmt.debugBytes32 event.predicateId,
    fmt.debugBytes32 event.objectId⟩, ?_, ?_⟩
  · simp [TripleCreated.eventData, JsonObject.toEventData, JsonObject.string?,
      JsonObject.ofFields, Finmap.lookup_insert_of_ne]
  · simp [TripleCreatedRecord.log, hfmt.address, hfmt.word]

theorem Deposited.log_read (hfmt : fmt.Exact) (event : Deposited) :
    ∃ data, ((event.eventData fmt).toEventData fmt.toExternals).deposited = some data
      ∧ data.log = some event := by
  obtain ⟨curveId, hcurve, hcurve'⟩ := hfmt.exists_decimal event.curveId
  obtain ⟨assets, hassets, hassets'⟩ := hfmt.exists_decimal event.assets
  obtain ⟨after, hafter, hafter'⟩ := hfmt.exists_decimal event.assetsAfterFees
  obtain ⟨shares, hshares, hshares'⟩ := hfmt.exists_decimal event.shares
  obtain ⟨total, htotal, htotal'⟩ := hfmt.exists_decimal event.totalShares
  have hvault : (event.eventData fmt).int32? "vault_type" = some (event.vaultType.toNat : ℤ) :=
    JsonObject.int32?_eq (Finmap.lookup_insert _)
  refine ⟨⟨fmt.debugAddress event.sender, fmt.debugAddress event.receiver,
    fmt.debugBytes32 event.termId, curveId, assets, after, shares, total,
    event.vaultType.toNat⟩, ?_, ?_⟩
  · simp only [JsonObject.toEventData, hvault]
    simp [Deposited.eventData, JsonObject.string?, JsonObject.decimal?, JsonObject.ofFields,
      Finmap.lookup_insert_of_ne, hcurve, hassets, hafter, hshares, htotal]
  · simp [DepositedRecord.log, hfmt.address, hfmt.word, hcurve', hassets', hafter', hshares',
      htotal', uint8Of_toNat]

theorem Redeemed.log_read (hfmt : fmt.Exact) (event : Redeemed) :
    ∃ data, ((event.eventData fmt).toEventData fmt.toExternals).redeemed = some data
      ∧ data.log = some event := by
  obtain ⟨curveId, hcurve, hcurve'⟩ := hfmt.exists_decimal event.curveId
  obtain ⟨shares, hshares, hshares'⟩ := hfmt.exists_decimal event.shares
  obtain ⟨total, htotal, htotal'⟩ := hfmt.exists_decimal event.totalShares
  obtain ⟨assets, hassets, hassets'⟩ := hfmt.exists_decimal event.assets
  obtain ⟨fees, hfees, hfees'⟩ := hfmt.exists_decimal event.fees
  have hvault : (event.eventData fmt).int32? "vault_type" = some (event.vaultType.toNat : ℤ) :=
    JsonObject.int32?_eq (Finmap.lookup_insert _)
  refine ⟨⟨fmt.debugAddress event.sender, fmt.debugAddress event.receiver,
    fmt.debugBytes32 event.termId, curveId, shares, total, assets, fees,
    event.vaultType.toNat⟩, ?_, ?_⟩
  · simp only [JsonObject.toEventData, hvault]
    simp [Redeemed.eventData, JsonObject.string?, JsonObject.decimal?, JsonObject.ofFields,
      Finmap.lookup_insert_of_ne, hcurve, hshares, htotal, hassets, hfees]
  · simp [RedeemedRecord.log, hfmt.address, hfmt.word, hcurve', hshares', htotal', hassets',
      hfees', uint8Of_toNat]

theorem SharePriceChanged.log_read (hfmt : fmt.Exact) (event : SharePriceChanged) :
    ∃ data, ((event.eventData fmt).toEventData fmt.toExternals).sharePriceChanged = some data
      ∧ data.log = some event := by
  obtain ⟨curveId, hcurve, hcurve'⟩ := hfmt.exists_decimal event.curveId
  obtain ⟨price, hprice, hprice'⟩ := hfmt.exists_decimal event.sharePrice
  obtain ⟨assets, hassets, hassets'⟩ := hfmt.exists_decimal event.totalAssets
  obtain ⟨shares, hshares, hshares'⟩ := hfmt.exists_decimal event.totalShares
  have hvault : (event.eventData fmt).int32? "vault_type" = some (event.vaultType.toNat : ℤ) :=
    JsonObject.int32?_eq (Finmap.lookup_insert _)
  refine ⟨⟨fmt.debugBytes32 event.termId, curveId, price, assets, shares,
    event.vaultType.toNat⟩, ?_, ?_⟩
  · simp only [JsonObject.toEventData, hvault]
    simp [SharePriceChanged.eventData, JsonObject.string?, JsonObject.decimal?,
      JsonObject.ofFields, Finmap.lookup_insert_of_ne, hcurve, hprice, hassets, hshares]
  · simp [SharePriceChangedRecord.log, hfmt.word, hcurve', hprice', hassets', hshares',
      uint8Of_toNat]

theorem ProtocolFeeAccrued.log_read (hfmt : fmt.Exact) (event : ProtocolFeeAccrued) :
    ∃ data, ((event.eventData fmt).toEventData fmt.toExternals).protocolFeeAccrued = some data
      ∧ data.log = some event := by
  obtain ⟨epoch, hepoch, hepoch'⟩ := hfmt.exists_decimal event.epoch
  obtain ⟨amount, hamount, hamount'⟩ := hfmt.exists_decimal event.amount
  refine ⟨⟨epoch, fmt.debugAddress event.sender, amount⟩, ?_, ?_⟩
  · simp [ProtocolFeeAccrued.eventData, JsonObject.toEventData, JsonObject.string?,
      JsonObject.decimal?, JsonObject.ofFields, Finmap.lookup_insert_of_ne, hepoch, hamount]
  · simp [ProtocolFeeAccruedRecord.log, hfmt.address, hepoch', hamount']

variable {e : StoredEvent}

/-- **The payload of a log is read as the log**, by the record of its type. -/
theorem MultiVaultEvent.log_parse (hfmt : fmt.Exact) {event : MultiVaultEvent}
    (htype : e.eventType = event.type.asStr)
    (hdata : e.eventData = (event.eventData fmt).toEventData fmt.toExternals) :
    (ParsedEvent.parseOrUnknown e).type? = some event.type
      ∧ (ParsedEvent.parseOrUnknown e).metadata = .fromEvent e
      ∧ (ParsedEvent.parseOrUnknown e).log = some event := by
  unfold ParsedEvent.parseOrUnknown ParsedEvent.parse
  rw [htype, EventType.fromStr_asStr, hdata]
  cases event with
  | atomCreated event | atomContextRegistered event | tripleCreated event | deposited event
  | redeemed event | sharePriceChanged event | protocolFeeAccrued event =>
    obtain ⟨data, hread, hlog⟩ := event.log_read hfmt
    simp only [MultiVaultEvent.type, MultiVaultEvent.eventData, hread, ParsedEvent.parseVariant]
    exact ⟨rfl, rfl, congrArg (Option.map _) hlog⟩

end Payloads

/-! ## What readers give back -/

/-- Two deliveries are of the same log. -/
def Delivered.SameLog (d d' : Delivered) : Prop :=
  d.transactionHash = d'.transactionHash ∧ d.logIndex = d'.logIndex

/-- **An event gives a log back**: it is parsed as one of its type, the log is what its record
says, and what the log says of its transaction is what its envelope says. -/
structure GivesBack (chain : Chain) (d : Delivered) (e : StoredEvent) : Prop where
  type : (ParsedEvent.parseOrUnknown e).type? = some (d.log chain).event.type
  log : (ParsedEvent.parseOrUnknown e).log = some (d.log chain).event
  blockNumber : (ParsedEvent.parseOrUnknown e).metadata.blockNumber = (d.log chain).blockNumber
  blockTimestamp : (ParsedEvent.parseOrUnknown e).metadata.blockTimestamp = d.timestamp chain
  blockHash : wordOf 32 (ParsedEvent.parseOrUnknown e).metadata.blockHash
    = some (d.log chain).blockHash
  transactionHash : wordOf 32 (ParsedEvent.parseOrUnknown e).metadata.transactionHash
    = some d.transactionHash
  logIndex : (ParsedEvent.parseOrUnknown e).metadata.logIndex = d.logIndex
  isCanonical : (ParsedEvent.parseOrUnknown e).metadata.isCanonical = true

section ReadBack

variable (fmt : Formats)

/-- A row of `event_store` as `EventReader` returns it, by way of its columns. -/
def EventReader.readBack (record : LogRecord) (sequenceNumber : ℕ) (ingestedAt : ℤ) :
    Option StoredEvent := do
  let row ← EventStoreStorage.storeRow record
  return (← selectRow fmt row sequenceNumber ingestedAt).toStored fmt.toExternals

/-- A row of a typed table as `TypedEventReader` returns it, by way of its columns. -/
def TypedEventReader.readBack (typed : TypedRow) : Option StoredEvent := do
  let row ← EventStoreStorage.typedRow typed.sequenceNumber typed.event
  return (← (fragment typed.event.type).select fmt row).toStored fmt.toExternals

variable {fmt} {chain : Chain} {d : Delivered}

/-- **A row with the payload of a log gives it back**, whichever reader returns it. -/
theorem GivesBack.of_row (hfmt : fmt.Exact) {row : EventRow}
    (hheader : row.toLogHeader = d.header fmt chain)
    (htype : row.eventType = (d.log chain).event.type.asStr)
    (hdata : row.eventData = (d.log chain).event.eventData fmt)
    (hcanonical : row.isCanonical = true) :
    GivesBack chain d (row.toStored fmt.toExternals) := by
  have heventData : (row.toStored fmt.toExternals).eventData
      = ((d.log chain).event.eventData fmt).toEventData fmt.toExternals := by
    rw [← hdata]
    rfl
  obtain ⟨hparsed, hmetadata, hlog⟩ :=
    MultiVaultEvent.log_parse (e := row.toStored fmt.toExternals) hfmt htype heventData
  have hhash : row.blockHash = fmt.debugBytes32 (d.log chain).blockHash :=
    congrArg LogHeader.blockHash hheader
  have htransaction : row.transactionHash = fmt.debugBytes32 d.transactionHash :=
    congrArg LogHeader.transactionHash hheader
  refine ⟨hparsed, hlog, ?_, ?_, ?_, ?_, ?_, ?_⟩ <;> rw [hmetadata]
  · exact congrArg LogHeader.blockNumber hheader
  · exact congrArg LogHeader.blockTimestamp hheader
  · show wordOf 32 row.blockHash = _
    rw [hhash, hfmt.word]
  · show wordOf 32 row.transactionHash = _
    rw [htransaction, hfmt.word]
  · exact congrArg LogHeader.logIndex hheader
  · exact hcanonical

/-- **What `EventReader` returns for a log gives it back**; it is the row of `event_store`. -/
theorem EventReader.givesBack_readBack (hfmt : fmt.Exact) (sequenceNumber : ℕ) (ingestedAt : ℤ) :
    EventReader.readBack fmt ((d.log chain).event.record fmt (d.header fmt chain)) sequenceNumber
        ingestedAt = some ((d.record fmt chain).toRow sequenceNumber ingestedAt)
      ∧ GivesBack chain d ((d.record fmt chain).toRow sequenceNumber ingestedAt) := by
  obtain ⟨row, hrow, hselect⟩ := EventReader.selectRow_storeRow fmt
    ((d.log chain).event.record fmt (d.header fmt chain)) sequenceNumber ingestedAt
  constructor
  · unfold EventReader.readBack
    rw [hrow]
    show (EventReader.selectRow fmt row sequenceNumber ingestedAt).bind _ = _
    rw [hselect]
    rfl
  · show GivesBack chain d ((EventReader.row fmt ((d.log chain).event.record fmt
      (d.header fmt chain)) sequenceNumber ingestedAt).toStored fmt.toExternals)
    exact .of_row hfmt rfl rfl rfl rfl

/-- **What `TypedEventReader` returns for a log gives it back.** -/
theorem TypedEventReader.givesBack_readBack (hfmt : fmt.Exact) {typed : TypedRow}
    (h : d.typed fmt chain = some typed.event) :
    ∃ e, TypedEventReader.readBack fmt typed = some e ∧ GivesBack chain d e := by
  obtain ⟨row, hrow, hselect⟩ :=
    TypedEventReader.select_typedRow fmt typed.event typed.sequenceNumber
  rw [TypedEventReader.sqlFragment_eq hfmt.toLawful h] at hselect
  refine ⟨(TypedEventReader.select typed.sequenceNumber (d.header fmt chain)
    (d.log chain).event.type ((d.log chain).event.eventData fmt)
    ((d.log chain).event.termId? fmt) ((d.log chain).event.subject? fmt)).toStored
    fmt.toExternals, ?_, .of_row hfmt rfl rfl rfl rfl⟩
  · unfold TypedEventReader.readBack
    rw [hrow]
    show ((TypedEventReader.fragment typed.event.type).select fmt row).bind _ = _
    rw [hselect]
    rfl

end ReadBack

/-! ## The call of a handler -/

namespace EventTables

/-- The deliveries that an action inserts. -/
def Action.deliveries : Action → List Delivered
  | .inserts _ _ chunk => chunk
  | .fails _ => []

/-- The logs of one type, as they are given to the handler of the type. -/
abbrev DeliveredOf (chain : Chain) (type : EventType) :=
  { d : Delivered // (d.log chain).event.type = type }

section Handler

variable (fmt : Formats) {chain : Chain} {type : EventType} (bulkChunkSize : ℕ) (ingestedAt : ℤ)

/-- A chunk is computed and inserted, in one transaction. A text that is no decimal panics, and
so does a size of zero. -/
def insertChunkBy (tables : EventTables) (chunk : List (DeliveredOf chain type)) :
    Except InsertError EventTables :=
  match htyped : (chunk.map Subtype.val).mapM fun d => d.typed fmt chain with
  | none => .error .panicked
  | some _ =>
    if hsize : 1 ≤ bulkChunkSize then
      tables.insertCall (.ofChunk ingestedAt hsize (List.forall_mem_map.mpr fun d _ => d.2) htyped)
    else .error .panicked

/-- **The call of a handler**, one chunk after the other. -/
def insertResults (handlerChunkSize : ℕ) (tables : EventTables)
    (results : List (DeliveredOf chain type)) : Except InsertError EventTables :=
  if results.isEmpty then .ok tables
  else if handlerChunkSize = 0 then .error .panicked
  else (Chunks.chunks handlerChunkSize results).foldlM
    (insertChunkBy fmt bulkChunkSize ingestedAt) tables

end Handler

/-! ## What is so in every state -/

/-- Each row is what some delivery left, of those there have been. -/
structure RowsOf (fmt : Formats) (chain : Chain) (P : Delivered → Prop) (tables : EventTables) :
    Prop where
  numbered : tables.Numbered
  store : ∀ r ∈ tables.store.rows, ∃ d, P d
    ∧ r = (d.record fmt chain).toRow r.sequenceNumber r.ingestedAt
  typed : ∀ type, ∀ row ∈ tables.typed type, ∃ d, P d ∧ d.typed fmt chain = some row.event

/-- A delivery has a row in both tables. -/
structure HasRows (fmt : Formats) (chain : Chain) (d : Delivered) (tables : EventTables) :
    Prop where
  store : ∃ r ∈ tables.store.rows, r.key = ((d.header fmt chain).logId, d.timestamp chain)
  typed : ∃ row ∈ tables.typed (d.log chain).event.type, row.logId = (d.header fmt chain).logId

variable {fmt : Formats} {chain : Chain} {type : EventType} {ingestedAt : ℤ}
  {tables tables' : EventTables} {P : Delivered → Prop} {d : Delivered} {chunk : List Delivered}
  {bulkChunkSize handlerChunkSize : ℕ}

variable (fmt chain P) in
theorem rowsOf_start : RowsOf fmt chain P {} where
  numbered := numbered_start
  store _ hr := absurd hr List.not_mem_nil
  typed _ _ hrow := absurd hrow List.not_mem_nil

theorem HasRows.of_wrote (h : HasRows fmt chain d tables)
    (hw : Wrote fmt chain tables tables' type chunk) : HasRows fmt chain d tables' where
  store := by
    obtain ⟨r, hr, hkey⟩ := h.store
    exact ⟨r, hw.store_subset hr, hkey⟩
  typed := by
    obtain ⟨row, hrow, hid⟩ := h.typed
    exact ⟨row, hw.typed_subset _ hrow, hid⟩

/-- A chunk leaves rows of its deliveries. -/
theorem hasRows_of_wrote (hw : Wrote fmt chain tables tables' type chunk) (hd : d ∈ chunk) :
    HasRows fmt chain d tables' where
  store := hw.exists_store d hd
  typed := by
    rw [hw.types d hd]
    exact hw.exists_typed d hd

/-- A chunk keeps what is so in every state. -/
theorem RowsOf.insertChunk (h : RowsOf fmt chain P tables) (hchunk : ∀ d ∈ chunk, P d)
    (hinsert : tables.insertChunk fmt chain type ingestedAt chunk = some tables') :
    RowsOf fmt chain P tables' := by
  have hw := wrote_of_insertChunk h.numbered.quiet hinsert
  obtain ⟨call, -, -, -, hcall⟩ := h.numbered.exists_insertCall hinsert le_rfl
  refine ⟨h.numbered.callStep (a := .calls call) (Result.toOption_eq_some.mpr hcall),
    fun r hr => ?_, fun type' row hrow => ?_⟩
  · obtain hr | ⟨d, hd, number, at', rfl⟩ := hw.of_store r hr
    · exact h.store r hr
    · exact ⟨d, hchunk d hd, rfl⟩
  · obtain hrow | ⟨-, d, hd, htyped⟩ := hw.of_typed type' row hrow
    · exact h.typed type' row hrow
    · exact ⟨d, hchunk d hd, htyped⟩

/-- An action keeps what is so in every state, and the rows that a delivery has. -/
theorem RowsOf.step (h : RowsOf fmt chain P tables) {a : Action} (ha : ∀ d ∈ a.deliveries, P d)
    (hs : tables.step fmt chain a = some tables') :
    RowsOf fmt chain P tables'
      ∧ ∀ d, HasRows fmt chain d tables → HasRows fmt chain d tables' := by
  cases a with
  | inserts type ingestedAt chunk =>
    exact ⟨h.insertChunk ha hs, fun d hd =>
      hd.of_wrote (wrote_of_insertChunk h.numbered.quiet hs)⟩
  | fails numbers =>
    cases hs
    exact ⟨⟨h.numbered.callStep (a := .fails numbers) rfl, h.store, h.typed⟩,
      fun d hd => ⟨hd.store, hd.typed⟩⟩

/-- A chunk that a handler inserts is inserted as a whole, in pieces of whatever size. -/
theorem insertChunk_of_insertChunkBy (h : tables.Numbered) {chunk : List (DeliveredOf chain type)}
    (hinsert : insertChunkBy fmt bulkChunkSize ingestedAt tables chunk = .ok tables') :
    tables.insertChunk fmt chain type ingestedAt (chunk.map Subtype.val) = some tables' := by
  unfold insertChunkBy at hinsert
  split at hinsert
  · cases hinsert
  · split at hinsert
    · rw [h.insertCall_ofChunk] at hinsert
      exact Result.okOr_eq_ok.mp hinsert
    · cases hinsert

/-- One chunk after the other is inserted, and what one has left the next ones keep. -/
theorem RowsOf.foldlM_insertChunkBy (h : RowsOf fmt chain P tables)
    {chunks : List (List (DeliveredOf chain type))}
    (hchunks : ∀ chunk ∈ chunks, ∀ d ∈ chunk, P d.1)
    (hinsert : chunks.foldlM (insertChunkBy fmt bulkChunkSize ingestedAt) tables = .ok tables') :
    RowsOf fmt chain P tables'
      ∧ (∀ d, HasRows fmt chain d tables → HasRows fmt chain d tables')
      ∧ ∀ chunk ∈ chunks, ∀ d ∈ chunk, HasRows fmt chain d.1 tables' := by
  induction chunks generalizing tables with
  | nil =>
    cases hinsert
    exact ⟨h, fun _ hd => hd, fun _ hchunk => absurd hchunk List.not_mem_nil⟩
  | cons chunk chunks ih =>
    obtain ⟨mid, hmid, hrest⟩ := Result.bind_eq_ok.mp hinsert
    obtain ⟨hchunk, hchunks⟩ := List.forall_mem_cons.mp hchunks
    have hwhole := insertChunk_of_insertChunkBy h.numbered hmid
    have hw := wrote_of_insertChunk h.numbered.quiet hwhole
    obtain ⟨hrows, hkeeps, hall⟩ :=
      ih (h.insertChunk (List.forall_mem_map.mpr hchunk) hwhole) hchunks hrest
    refine ⟨hrows, fun d hd => hkeeps d (hd.of_wrote hw), List.forall_mem_cons.mpr ⟨?_, hall⟩⟩
    exact fun d hd => hkeeps d.1 (hasRows_of_wrote hw (List.mem_map_of_mem hd))

/-- **A handler leaves rows of all that it was given**, in chunks of whatever size. -/
theorem RowsOf.insertResults (h : RowsOf fmt chain P tables)
    {results : List (DeliveredOf chain type)} (hresults : ∀ d ∈ results, P d.1)
    (hinsert : insertResults fmt bulkChunkSize ingestedAt handlerChunkSize tables results
      = .ok tables') :
    RowsOf fmt chain P tables' ∧ ∀ d ∈ results, HasRows fmt chain d.1 tables' := by
  unfold EventTables.insertResults at hinsert
  split at hinsert
  · next hempty =>
    cases hinsert
    rw [List.isEmpty_iff.mp hempty]
    exact ⟨h, fun d hd => absurd hd List.not_mem_nil⟩
  split at hinsert
  · cases hinsert
  · next hsize =>
    have hflatten := Chunks.flatten_chunks (Nat.one_le_iff_ne_zero.mpr hsize) results
    obtain ⟨hrows, -, hall⟩ := h.foldlM_insertChunkBy (fun chunk hchunk d hd => hresults d
      (hflatten ▸ List.mem_flatten_of_mem hchunk hd)) hinsert
    refine ⟨hrows, fun d hd => ?_⟩
    rw [← hflatten] at hd
    obtain ⟨chunk, hchunk, hd⟩ := List.mem_flatten.mp hd
    exact hall chunk hchunk d hd

/-- **What is so in every state**, of the deliveries of a schedule. -/
theorem RowsOf.follow (h : RowsOf fmt chain P tables) {schedule : List Action}
    (hschedule : ∀ a ∈ schedule, ∀ d ∈ a.deliveries, P d)
    (hfollow : Run.follow (EventTables.step fmt chain) tables schedule = some tables') :
    RowsOf fmt chain P tables'
      ∧ ∀ d, HasRows fmt chain d tables → HasRows fmt chain d tables' :=
  (Run.EachStep.of_forall hschedule).invariant
    (I := fun tables' => RowsOf fmt chain P tables'
      ∧ ∀ d, HasRows fmt chain d tables → HasRows fmt chain d tables')
    (fun _ _ _ hI ha hs => by
      obtain ⟨hrows, hkeeps⟩ := hI.1.step ha hs
      exact ⟨hrows, fun d hd => hkeeps d (hI.2 d hd)⟩)
    hfollow ⟨h, fun _ hd => hd⟩

/-! ## What is read back -/

/-- **A log is read back by both readers**: each has rows of it, and gives it back from every
row, as some delivery of it brought it. -/
structure ReadBack (fmt : Formats) (chain : Chain) (P : Delivered → Prop) (tables : EventTables)
    (d : Delivered) : Prop where
  hasRows : HasRows fmt chain d tables
  store : ∀ r ∈ tables.store.rows, r.logId = (d.header fmt chain).logId →
    ∃ d', P d' ∧ d'.SameLog d ∧ GivesBack chain d' r
      ∧ EventReader.readBack fmt ((d'.log chain).event.record fmt (d'.header fmt chain))
        r.sequenceNumber r.ingestedAt = some r
  typed : ∀ type, ∀ row ∈ tables.typed type, row.logId = (d.header fmt chain).logId →
    ∃ d' e, P d' ∧ d'.SameLog d ∧ GivesBack chain d' e
      ∧ TypedEventReader.readBack fmt row = some e

/-- A delivery is told by the place of its log. -/
theorem sameLog_of_logId (hfmt : fmt.Lawful) {d d' : Delivered}
    (h : (d.header fmt chain).logId = (d'.header fmt chain).logId) : d.SameLog d' :=
  ⟨hfmt.debugBytes32_injective (congrArg Prod.fst h), congrArg Prod.snd h⟩

/-- **A log that has rows is read back.** -/
theorem RowsOf.readBack (hfmt : fmt.Exact) (h : RowsOf fmt chain P tables)
    (hd : HasRows fmt chain d tables) : ReadBack fmt chain P tables d where
  hasRows := hd
  store := by
    intro r hr hid
    obtain ⟨d', hP, hrow⟩ := h.store r hr
    obtain ⟨hread, hgives⟩ := @EventReader.givesBack_readBack fmt chain d' hfmt r.sequenceNumber
      r.ingestedAt
    rw [← hrow] at hread hgives
    refine ⟨d', hP, sameLog_of_logId hfmt.toLawful (Eq.trans ?_ hid), hgives, hread⟩
    exact (congrArg StoredEvent.logId hrow).symm
  typed := by
    intro type row hrow hid
    obtain ⟨d', hP, htyped⟩ := h.typed type row hrow
    obtain ⟨e, hread, hgives⟩ := TypedEventReader.givesBack_readBack hfmt htyped
    refine ⟨d', e, hP, sameLog_of_logId hfmt.toLawful (Eq.trans ?_ hid), hgives, hread⟩
    exact (congrArg LogHeader.logId (header_type_of_typed htyped).1).symm

end EventTables

open EventTables

/-- **Ingestion is lossless.** Whatever a handler of any type has inserted, in deliveries and in
chunks of whatever size, either reader gives back at any later time: each log as it is on the
chain, parsed as an event of its type. -/
theorem ingestion_lossless {fmt : Formats} (hfmt : fmt.Exact) (chain : Chain) (type : EventType)
    (before after : List Action) (results : List (DeliveredOf chain type))
    (handlerChunkSize bulkChunkSize : ℕ) (ingestedAt : ℤ) {tables tables' tables'' : EventTables}
    (hbefore : Run.follow (step fmt chain) {} before = some tables)
    (hinsert : insertResults fmt bulkChunkSize ingestedAt handlerChunkSize tables results
      = .ok tables')
    (hafter : Run.follow (step fmt chain) tables' after = some tables'') :
    ∀ d ∈ results, ReadBack fmt chain
      (fun d' => d' ∈ (before ++ after).flatMap Action.deliveries ++ results.map Subtype.val)
      tables'' d.1 := by
  intro d hd
  have hmem : ∀ schedule, schedule ⊆ before ++ after → ∀ a ∈ schedule, ∀ d ∈ a.deliveries,
      d ∈ (before ++ after).flatMap Action.deliveries ++ results.map Subtype.val :=
    fun schedule hsub a ha d hd =>
      List.mem_append_left _ (List.mem_flatMap.mpr ⟨a, hsub ha, hd⟩)
  obtain ⟨hrows, -⟩ := (rowsOf_start fmt chain _).follow
    (hmem before (List.subset_append_left ..)) hbefore
  obtain ⟨hrows', hall⟩ := hrows.insertResults
    (fun d hd => List.mem_append_right _ (List.mem_map_of_mem hd)) hinsert
  obtain ⟨hrows'', hkeeps⟩ := hrows'.follow (hmem after (List.subset_append_right ..)) hafter
  exact hrows''.readBack hfmt (hkeeps d.1 (hall d hd))

/-! ## Digits are read back -/

section Digits

variable {cs : List Char} {bytes : Bytes}

/-- Digits that follow others are read after them. -/
theorem hexDecode_append (h : hexDecode cs = some bytes) (ds : List Char) :
    hexDecode (cs ++ ds) = (hexDecode ds).map (bytes ++ ·) := by
  fun_induction hexDecode cs generalizing bytes with
  | case1 =>
    cases h
    exact Option.map_id'.symm
  | case2 => cases h
  | case3 c d cs ih =>
    obtain ⟨x, hx, h⟩ := Option.bind_eq_some_iff.mp h
    obtain ⟨y, hy, h⟩ := Option.bind_eq_some_iff.mp h
    obtain ⟨rest, hrest, h⟩ := Option.bind_eq_some_iff.mp h
    cases h
    show hexDecode (c :: d :: (cs ++ ds)) = _
    rw [hexDecode, hx, hy, ih hrest]
    cases hexDecode ds <;> rfl

/-- A byte is read from its two digits. -/
theorem hexDecode_digits {n : ℕ} (h : n < 256) :
    hexDecode (Formats.hexDigits 2 n) = some [.ofNat n] := by
  have hall : ∀ n < 256, hexDecode (Formats.hexDigits 2 n) = some [.ofNat n] := by decide +kernel
  exact hall n h

theorem bigEndian_append (byte : UInt8) :
    bigEndian (bytes ++ [byte]) = bigEndian bytes * 256 + byte.toNat := by
  unfold bigEndian
  rw [List.foldl_append]
  rfl

/-- **A number is read from its digits.** -/
theorem hexDecode_hexDigits (width : ℕ) {n : ℕ} (h : n < 256 ^ width) :
    ∃ bytes, hexDecode (Formats.hexDigits (2 * width) n) = some bytes ∧ bytes.length = width
      ∧ bigEndian bytes = n := by
  induction width generalizing n with
  | zero => exact ⟨[], rfl, rfl, (Nat.lt_one_iff.mp h).symm⟩
  | succ width ih =>
    have hdiv : n / 256 < 256 ^ width := Nat.div_lt_of_lt_mul (Nat.pow_succ' ▸ h)
    have hmod : n % 256 < 256 := Nat.mod_lt _ (by decide)
    obtain ⟨bytes, hbytes, hlength, hnumber⟩ := ih hdiv
    -- the last two digits are those of the last byte
    have hdigits : Formats.hexDigits (2 * (width + 1)) n
        = Formats.hexDigits (2 * width) (n / 256) ++ Formats.hexDigits 2 (n % 256) := by
      show Formats.hexDigits (2 * width) (n / 16 / 16) ++ [Nat.digitChar (n / 16 % 16)]
          ++ [Nat.digitChar (n % 16)] = Formats.hexDigits (2 * width) (n / 256)
          ++ [Nat.digitChar (n % 256 / 16 % 16), Nat.digitChar (n % 256 % 16)]
      rw [List.append_assoc, Nat.div_div_eq_div_mul, Nat.mod_mod_of_dvd n (by decide : 16 ∣ 256),
        show n % 256 / 16 % 16 = n / 16 % 16 by omega]
      rfl
    refine ⟨bytes ++ [.ofNat (n % 256)], ?_, ?_, ?_⟩
    · rw [hdigits, hexDecode_append hbytes, hexDecode_digits hmod]
      rfl
    · rw [List.length_append, hlength]
      rfl
    · rw [bigEndian_append, hnumber, UInt8.toNat_ofNat_of_lt' hmod]
      omega

/-- A word is read from its digits. -/
theorem wordOf_hexDigits {width : ℕ} (n : BitVec (8 * width)) :
    wordOf width ("0x" ++ .ofList (Formats.hexDigits (2 * width) n.toNat)) = some n := by
  have hlt : n.toNat < 256 ^ width := by
    have := n.isLt
    rwa [Nat.pow_mul] at this
  obtain ⟨bytes, hbytes, hlength, hnumber⟩ := hexDecode_hexDigits width hlt
  unfold wordOf hexBytes
  simp only [stripPrefix_append, Option.bind_eq_bind, Option.bind_some, String.toList_ofList,
    hbytes, hlength, if_true, hnumber, BitVec.ofNat_toNat, BitVec.setWidth_eq]

/-- **Formats that print in digits are exact.** -/
theorem Formats.exact_exact : Formats.exact.Exact where
  toLawful := Formats.exact_lawful
  address a := @wordOf_hexDigits 20 a
  word b := @wordOf_hexDigits 32 b
  bytes bytes := by
    unfold hexBytes
    rw [stripPrefix_append]
    show hexDecode (String.ofList _).toList = _
    rw [String.toList_ofList]
    induction bytes with
    | nil => rfl
    | cons byte bytes ih =>
      rw [List.flatMap_cons, hexDecode_append (hexDecode_digits byte.toNat_lt), ih,
        UInt8.ofNat_toNat]
      rfl
  u256 n d h := by
    have hprint : Nat.toDigits 10 n.toNat = Externals.print ⟨n.toNat, 0⟩ := rfl
    have hread : Formats.exact.parseDecimal (Formats.exact.u256ToString n) = some ⟨n.toNat, 0⟩ := by
      refine congrArg some ?_
      show Externals.read (String.toList (.ofList _)) = _
      rw [String.toList_ofList, hprint, Externals.read_print]
    cases h.symm.trans hread
    exact (Rat.mkRat_one _).trans (Rat.intCast_natCast _)

end Digits

/-- A deposit is inserted, and read back. -/
theorem ingestion_lossless_deposit : ∃ tables, insertResults .exact 1 5 1 {}
      ([⟨⟨2, 0, true, 5⟩, rfl⟩] : List (DeliveredOf depositChain .deposited)) = .ok tables
    ∧ ReadBack .exact depositChain (fun d' => d' ∈ [⟨2, 0, true, 5⟩]) tables ⟨2, 0, true, 5⟩ := by
  have hok : (insertResults .exact 1 5 1 {}
      ([⟨⟨2, 0, true, 5⟩, rfl⟩] : List (DeliveredOf depositChain .deposited))).toOption.isSome
        = true := by decide +kernel
  obtain ⟨tables, htables⟩ := Option.isSome_iff_exists.mp hok
  have hinsert := Result.toOption_eq_some.mp htables
  exact ⟨tables, hinsert, ingestion_lossless Formats.exact_exact depositChain .deposited [] [] _
    1 1 5 rfl hinsert rfl _ List.mem_cons_self⟩
