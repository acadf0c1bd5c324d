import IntuitionCore.Ingestion.Readers

/-!
# Columns

A row reaches its table by position: values are bound in some order, cast to some types, and
stored under the columns of a list. The query that reads it names the columns. A list per
statement and a list per query are all that keeps the two together, and a value in the wrong
place would be another field, or none.

For each of the seven types, what the query reads is what was given to the insert.
-/

/-- The columns of `event_store` and of the typed tables. -/
inductive Column where
  | sequenceNumber
  | blockNumber
  | blockTimestamp
  | blockHash
  | transactionHash
  | logIndex
  | eventType
  | eventData
  | isCanonical
  | creator
  | registrant
  | sender
  | receiver
  | termId
  | termIdHex
  | atomData
  | atomWallet
  | uris
  | subjectId
  | subjectIdHex
  | predicateId
  | predicateIdHex
  | objectId
  | objectIdHex
  | curveId
  | assets
  | assetsAfterFees
  | shares
  | totalShares
  | totalAssets
  | sharePrice
  | fees
  | vaultType
  | epoch
  | amount
  deriving DecidableEq, Repr

/-- The types that values are cast to. -/
inductive SqlType where
  | bigint
  | timestamptz
  | text
  | int
  | numeric
  | jsonb
  | boolean
  deriving DecidableEq, Repr

/-- A value of a row. -/
inductive SqlValue where
  | bigint (n : ℕ)
  | timestamptz (time : ℤ)
  | text (s : String)
  | int (n : ℤ)
  | numeric (d : BigDecimal)
  | jsonb (value : JsonValue)
  | jsonbObject (obj : JsonObject)
  | boolean (b : Bool)

namespace SqlValue

def type : SqlValue → SqlType
  | bigint _ => .bigint
  | timestamptz _ => .timestamptz
  | text _ => .text
  | int _ => .int
  | numeric _ => .numeric
  | jsonb _ => .jsonb
  | jsonbObject _ => .jsonb
  | boolean _ => .boolean

def bigint? : SqlValue → Option ℕ
  | bigint n => some n
  | _ => none

def timestamptz? : SqlValue → Option ℤ
  | timestamptz time => some time
  | _ => none

def text? : SqlValue → Option String
  | text s => some s
  | _ => none

def int? : SqlValue → Option ℤ
  | int n => some n
  | _ => none

def jsonbObject? : SqlValue → Option JsonObject
  | jsonbObject obj => some obj
  | _ => none

def boolean? : SqlValue → Option Bool
  | boolean b => some b
  | _ => none

end SqlValue

/-- A row, by columns. -/
abbrev SqlRow := List (Column × SqlValue)

/-- The value of a column. -/
def SqlRow.get (row : SqlRow) (column : Column) : Option SqlValue := List.lookup column row

/-! ## Inserts -/

/-- The lists of an insert: the columns, and the types of what is bound. -/
structure InsertStatement where
  columns : List Column
  casts : List SqlType

/-- **A row is stored by position.** The arrays of a chunk are bound and unnested together, so
a row has the entries at its place in each. -/
def InsertStatement.run (stmt : InsertStatement) (binds : List SqlValue) : Option SqlRow :=
  if binds.map SqlValue.type = stmt.casts ∧ stmt.columns.length = binds.length then
    some (stmt.columns.zip binds)
  else none

namespace EventStoreStorage

/-- The columns that every row of a log has. -/
def headerColumns : List Column :=
  [.blockNumber, .blockTimestamp, .blockHash, .transactionHash, .logIndex]

def headerCasts : List SqlType := [.bigint, .timestamptz, .text, .text, .int]

def headerBinds (header : LogHeader) : List SqlValue :=
  [.bigint header.blockNumber, .timestamptz header.blockTimestamp, .text header.blockHash,
    .text header.transactionHash, .int header.logIndex]

/-- The insert into `event_store`; `true` is selected beside what is unnested. -/
def eventStoreInsert : InsertStatement where
  columns := headerColumns ++ [.eventType, .eventData, .isCanonical]
  casts := headerCasts ++ [.text, .jsonb, .boolean]

def eventStoreBinds (record : LogRecord) : List SqlValue :=
  headerBinds record.toLogHeader
    ++ [.text record.eventType, .jsonbObject record.eventData, .boolean true]

/-- The insert into the table of each type. -/
def typedInsert : EventType → InsertStatement
  | .atomCreated =>
    { columns := headerColumns
        ++ [.creator, .termId, .termIdHex, .atomData, .atomWallet, .sequenceNumber]
      casts := headerCasts ++ [.text, .numeric, .text, .text, .text, .bigint] }
  | .atomContextRegistered =>
    { columns := headerColumns ++ [.registrant, .termId, .termIdHex, .uris, .sequenceNumber]
      casts := headerCasts ++ [.text, .numeric, .text, .jsonb, .bigint] }
  | .tripleCreated =>
    { columns := headerColumns
        ++ [.creator, .termId, .termIdHex, .subjectId, .subjectIdHex, .predicateId,
          .predicateIdHex, .objectId, .objectIdHex, .sequenceNumber]
      casts := headerCasts
        ++ [.text, .numeric, .text, .numeric, .text, .numeric, .text, .numeric, .text, .bigint] }
  | .deposited =>
    { columns := headerColumns
        ++ [.sender, .receiver, .termId, .termIdHex, .curveId, .assets, .assetsAfterFees, .shares,
          .totalShares, .vaultType, .sequenceNumber]
      casts := headerCasts
        ++ [.text, .text, .numeric, .text, .numeric, .numeric, .numeric, .numeric, .numeric, .int,
          .bigint] }
  | .redeemed =>
    { columns := headerColumns
        ++ [.sender, .receiver, .termId, .termIdHex, .curveId, .shares, .totalShares, .assets,
          .fees, .vaultType, .sequenceNumber]
      casts := headerCasts
        ++ [.text, .text, .numeric, .text, .numeric, .numeric, .numeric, .numeric, .numeric, .int,
          .bigint] }
  | .sharePriceChanged =>
    { columns := headerColumns
        ++ [.termId, .termIdHex, .curveId, .sharePrice, .totalAssets, .totalShares, .vaultType,
          .sequenceNumber]
      casts := headerCasts
        ++ [.numeric, .text, .numeric, .numeric, .numeric, .numeric, .int, .bigint] }
  | .protocolFeeAccrued =>
    { columns := headerColumns ++ [.epoch, .sender, .amount, .sequenceNumber]
      casts := headerCasts ++ [.numeric, .text, .numeric, .bigint] }

/-- What is bound for a row, under a number. -/
def typedBinds (sequenceNumber : ℕ) : TypedEvent → List SqlValue
  | .atomCreated row =>
    headerBinds row.toLogHeader
      ++ [.text row.creator, .numeric row.termId, .text row.termIdHex, .text row.atomData,
        .text row.atomWallet, .bigint sequenceNumber]
  | .atomContextRegistered row =>
    headerBinds row.toLogHeader
      ++ [.text row.registrant, .numeric row.termId, .text row.termIdHex, .jsonb row.uris,
        .bigint sequenceNumber]
  | .tripleCreated row =>
    headerBinds row.toLogHeader
      ++ [.text row.creator, .numeric row.termId, .text row.termIdHex, .numeric row.subjectId,
        .text row.subjectIdHex, .numeric row.predicateId, .text row.predicateIdHex,
        .numeric row.objectId, .text row.objectIdHex, .bigint sequenceNumber]
  | .deposited row =>
    headerBinds row.toLogHeader
      ++ [.text row.sender, .text row.receiver, .numeric row.termId, .text row.termIdHex,
        .numeric row.curveId, .numeric row.assets, .numeric row.assetsAfterFees,
        .numeric row.shares, .numeric row.totalShares, .int row.vaultType, .bigint sequenceNumber]
  | .redeemed row =>
    headerBinds row.toLogHeader
      ++ [.text row.sender, .text row.receiver, .numeric row.termId, .text row.termIdHex,
        .numeric row.curveId, .numeric row.shares, .numeric row.totalShares, .numeric row.assets,
        .numeric row.fees, .int row.vaultType, .bigint sequenceNumber]
  | .sharePriceChanged row =>
    headerBinds row.toLogHeader
      ++ [.numeric row.termId, .text row.termIdHex, .numeric row.curveId, .numeric row.sharePrice,
        .numeric row.totalAssets, .numeric row.totalShares, .int row.vaultType,
        .bigint sequenceNumber]
  | .protocolFeeAccrued row =>
    headerBinds row.toLogHeader
      ++ [.numeric row.epoch, .text row.sender, .numeric row.amount, .bigint sequenceNumber]

/-- The row of `event_store` of a record. -/
def storeRow (record : LogRecord) : Option SqlRow := eventStoreInsert.run (eventStoreBinds record)

/-- The row of a log in the table of its type. -/
def typedRow (sequenceNumber : ℕ) (typed : TypedEvent) : Option SqlRow :=
  (typedInsert typed.type).run (typedBinds sequenceNumber typed)

end EventStoreStorage

/-! ## Queries -/

/-- What a field of a payload is built from: a column, or a column cast to text. -/
inductive JsonSource where
  | column (c : Column)
  | castText (c : Column)

/-- A query of a typed table. -/
structure SqlFragment where
  eventType : EventType
  eventData : List (String × JsonSource)
  termId : Option Column
  entityId : Option Column

section Queries

variable (fmt : Formats)

/-- A value as it is put into an object that is built. -/
def JsonSource.read (row : SqlRow) : JsonSource → Option JsonValue
  | column c => do
    match ← row.get c with
    | .text s => some (.string s)
    | .int n => some (.number n)
    | .jsonb value => some value
    | _ => none
  | castText c => do
    match ← row.get c with
    | .numeric d => some (.string (fmt.numericText d))
    | _ => none

/-- The columns that every row of a log has, read by name. -/
def SqlRow.header (row : SqlRow) : Option LogHeader := do
  return {
    blockNumber := ← (← row.get .blockNumber).bigint?
    blockTimestamp := ← (← row.get .blockTimestamp).timestamptz?
    blockHash := ← (← row.get .blockHash).text?
    transactionHash := ← (← row.get .transactionHash).text?
    logIndex := (← (← row.get .logIndex).int?).toNat }

/-- **What a query returns for a row.** -/
def SqlFragment.select (fragment : SqlFragment) (row : SqlRow) : Option EventRow := do
  let sequenceNumber ← (← row.get .sequenceNumber).bigint?
  let header ← row.header
  let eventData ← fragment.eventData.mapM fun field => do
    return (field.1, ← field.2.read fmt row)
  return TypedEventReader.select sequenceNumber header fragment.eventType (.ofFields eventData)
    (fragment.termId.bind fun c => (row.get c).bind SqlValue.text?)
    (fragment.entityId.bind fun c => (row.get c).bind SqlValue.text?)

namespace TypedEventReader

/-- The query of each type. -/
def fragment : EventType → SqlFragment
  | .atomCreated =>
    { eventType := .atomCreated
      eventData := [("creator", .column .creator), ("term_id", .column .termIdHex),
        ("atom_data", .column .atomData), ("atom_wallet", .column .atomWallet)]
      termId := some .termIdHex
      entityId := none }
  | .atomContextRegistered =>
    { eventType := .atomContextRegistered
      eventData := [("registrant", .column .registrant), ("term_id", .column .termIdHex),
        ("uris", .column .uris)]
      termId := some .termIdHex
      entityId := none }
  | .tripleCreated =>
    { eventType := .tripleCreated
      eventData := [("creator", .column .creator), ("term_id", .column .termIdHex),
        ("subject_id", .column .subjectIdHex), ("predicate_id", .column .predicateIdHex),
        ("object_id", .column .objectIdHex)]
      termId := some .termIdHex
      entityId := none }
  | .deposited =>
    { eventType := .deposited
      eventData := [("sender", .column .sender), ("receiver", .column .receiver),
        ("term_id", .column .termIdHex), ("curve_id", .castText .curveId),
        ("assets", .castText .assets), ("assets_after_fees", .castText .assetsAfterFees),
        ("shares", .castText .shares), ("total_shares", .castText .totalShares),
        ("vault_type", .column .vaultType)]
      termId := some .termIdHex
      entityId := some .receiver }
  | .redeemed =>
    { eventType := .redeemed
      eventData := [("sender", .column .sender), ("receiver", .column .receiver),
        ("term_id", .column .termIdHex), ("curve_id", .castText .curveId),
        ("shares", .castText .shares), ("total_shares", .castText .totalShares),
        ("assets", .castText .assets), ("fees", .castText .fees),
        ("vault_type", .column .vaultType)]
      termId := some .termIdHex
      entityId := some .receiver }
  | .sharePriceChanged =>
    { eventType := .sharePriceChanged
      eventData := [("term_id", .column .termIdHex), ("curve_id", .castText .curveId),
        ("share_price", .castText .sharePrice), ("total_assets", .castText .totalAssets),
        ("total_shares", .castText .totalShares), ("vault_type", .column .vaultType)]
      termId := some .termIdHex
      entityId := none }
  | .protocolFeeAccrued =>
    { eventType := .protocolFeeAccrued
      eventData := [("epoch", .castText .epoch), ("sender", .column .sender),
        ("amount", .castText .amount)]
      termId := none
      entityId := some .sender }

end TypedEventReader

namespace EventReader

/-- The query of `event_store`, of one row that has been numbered; the columns `term_id` and
`entity_id` are generated. -/
def selectRow (row : SqlRow) (sequenceNumber : ℕ) (ingestedAt : ℤ) : Option EventRow := do
  let header ← row.header
  let eventType ← (← row.get .eventType).text?
  let eventData ← (← row.get .eventData).jsonbObject?
  return { header with
    sequenceNumber, eventType, eventData, ingestedAt
    isCanonical := ← (← row.get .isCanonical).boolean?
    termId := termId fmt eventData
    entityId := entityId fmt eventType eventData }

end EventReader

end Queries

/-! ## What is read is what was given -/

section Agreement

variable (fmt : Formats)

/-- **The query of `event_store` reads what its insert was given.** -/
theorem EventReader.selectRow_storeRow (record : LogRecord) (sequenceNumber : ℕ) (ingestedAt : ℤ) :
    ∃ row, EventStoreStorage.storeRow record = some row
      ∧ selectRow fmt row sequenceNumber ingestedAt
        = some (EventReader.row fmt record sequenceNumber ingestedAt) :=
  ⟨_, rfl, rfl⟩

/-- **The query of a type reads what its insert was given**, each column under the name it was
stored under. -/
theorem TypedEventReader.select_typedRow (typed : TypedEvent) (sequenceNumber : ℕ) :
    ∃ row, EventStoreStorage.typedRow sequenceNumber typed = some row
      ∧ (fragment typed.type).select fmt row = some (sqlFragment fmt sequenceNumber typed) := by
  cases typed <;> exact ⟨_, rfl, rfl⟩

end Agreement
