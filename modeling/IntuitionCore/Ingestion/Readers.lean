import IntuitionCore.Ingestion.Contract

/-!
# Two readers of one event

An event can be read from `event_store`, where its payload is stored and two
columns are generated from it, or from the table of its type, where a query
builds the payload and those two columns from the typed ones. A worker uses
the one reader or the other, by a switch.

The two give the same row for five of the seven types. The column `entity_id`
of a redemption is the sender in the one and the receiver in the other, and
that of a protocol fee is empty in the one and the sender in the other.
-/

/-- An event as a reader returns it. -/
structure EventRow extends LogHeader where
  sequenceNumber : ℕ
  eventType : String
  eventData : JsonObject
  termId : Option String
  entityId : Option String
  isCanonical : Bool
  ingestedAt : ℤ

/-- The event as the workers know it. -/
def EventRow.toStored (ext : Externals) (row : EventRow) : StoredEvent where
  sequenceNumber := row.sequenceNumber
  blockNumber := row.blockNumber
  blockTimestamp := row.blockTimestamp
  blockHash := row.blockHash
  transactionHash := row.transactionHash
  logIndex := row.logIndex
  eventType := row.eventType
  eventData := row.eventData.toEventData ext
  termId := row.termId
  entityId := row.entityId
  isCanonical := row.isCanonical
  ingestedAt := row.ingestedAt

/-- Two rows are the same, but for when they were stored. -/
def EventRow.SameEvent (row row' : EventRow) : Prop :=
  { row with ingestedAt := row'.ingestedAt } = row'

/-! ## The event store -/

namespace EventReader

variable (fmt : Formats)

/-- The generated column `term_id`. -/
def termId (eventData : JsonObject) : Option String := eventData.text fmt "term_id"

/-- The generated column `entity_id`. -/
def entityId (eventType : String) (eventData : JsonObject) : Option String :=
  if eventType = "Deposited" ∨ eventType = "AtomCreated" then eventData.text fmt "receiver"
  else if eventType = "Redeemed" then eventData.text fmt "sender"
  else none

/-- A row of `event_store` under a number; it is canonical. -/
def row (record : LogRecord) (sequenceNumber : ℕ) (ingestedAt : ℤ) : EventRow :=
  { record with
    sequenceNumber
    termId := termId fmt record.eventData
    entityId := entityId fmt record.eventType record.eventData
    isCanonical := true
    ingestedAt }

end EventReader

/-- A record with what the generated columns read from its payload. -/
def LogRecord.toEventRecord (fmt : Formats) (record : LogRecord) : EventRecord where
  blockNumber := record.blockNumber
  blockTimestamp := record.blockTimestamp
  blockHash := record.blockHash
  transactionHash := record.transactionHash
  logIndex := record.logIndex
  eventType := record.eventType
  eventData := record.eventData.toEventData fmt.toExternals
  termId := EventReader.termId fmt record.eventData
  entityId := EventReader.entityId fmt record.eventType record.eventData

/-- A row that is stored is the row that is read. -/
theorem EventReader.toStored_row (fmt : Formats) (record : LogRecord) (sequenceNumber : ℕ)
    (ingestedAt : ℤ) :
    (EventReader.row fmt record sequenceNumber ingestedAt).toStored fmt.toExternals
      = (record.toEventRecord fmt).toRow sequenceNumber ingestedAt := rfl

/-! ## The typed tables -/

namespace TypedEventReader

variable (fmt : Formats) (sequenceNumber : ℕ)

/-- What the queries of all types select in the same way. -/
def select (header : LogHeader) (eventType : EventType) (eventData : JsonObject)
    (termId entityId : Option String) : EventRow :=
  { header with
    sequenceNumber
    eventType := eventType.asStr
    eventData
    termId
    entityId
    isCanonical := true
    ingestedAt := header.blockTimestamp }

/-- The query of each type, of one row of its table. -/
def sqlFragment : TypedEvent → EventRow
  | .atomCreated row =>
    select sequenceNumber row.toLogHeader .atomCreated
      (.ofFields
        [("creator", .string row.creator), ("term_id", .string row.termIdHex),
          ("atom_data", .string row.atomData), ("atom_wallet", .string row.atomWallet)])
      (some row.termIdHex) none
  | .atomContextRegistered row =>
    select sequenceNumber row.toLogHeader .atomContextRegistered
      (.ofFields
        [("registrant", .string row.registrant), ("term_id", .string row.termIdHex),
          ("uris", row.uris)])
      (some row.termIdHex) none
  | .tripleCreated row =>
    select sequenceNumber row.toLogHeader .tripleCreated
      (.ofFields
        [("creator", .string row.creator), ("term_id", .string row.termIdHex),
          ("subject_id", .string row.subjectIdHex), ("predicate_id", .string row.predicateIdHex),
          ("object_id", .string row.objectIdHex)])
      (some row.termIdHex) none
  | .deposited row =>
    select sequenceNumber row.toLogHeader .deposited
      (.ofFields
        [("sender", .string row.sender), ("receiver", .string row.receiver),
          ("term_id", .string row.termIdHex), ("curve_id", .string (fmt.numericText row.curveId)),
          ("assets", .string (fmt.numericText row.assets)),
          ("assets_after_fees", .string (fmt.numericText row.assetsAfterFees)),
          ("shares", .string (fmt.numericText row.shares)),
          ("total_shares", .string (fmt.numericText row.totalShares)),
          ("vault_type", .number row.vaultType)])
      (some row.termIdHex) (some row.receiver)
  | .redeemed row =>
    select sequenceNumber row.toLogHeader .redeemed
      (.ofFields
        [("sender", .string row.sender), ("receiver", .string row.receiver),
          ("term_id", .string row.termIdHex), ("curve_id", .string (fmt.numericText row.curveId)),
          ("shares", .string (fmt.numericText row.shares)),
          ("total_shares", .string (fmt.numericText row.totalShares)),
          ("assets", .string (fmt.numericText row.assets)),
          ("fees", .string (fmt.numericText row.fees)), ("vault_type", .number row.vaultType)])
      (some row.termIdHex) (some row.receiver)
  | .sharePriceChanged row =>
    select sequenceNumber row.toLogHeader .sharePriceChanged
      (.ofFields
        [("term_id", .string row.termIdHex), ("curve_id", .string (fmt.numericText row.curveId)),
          ("share_price", .string (fmt.numericText row.sharePrice)),
          ("total_assets", .string (fmt.numericText row.totalAssets)),
          ("total_shares", .string (fmt.numericText row.totalShares)),
          ("vault_type", .number row.vaultType)])
      (some row.termIdHex) none
  | .protocolFeeAccrued row =>
    select sequenceNumber row.toLogHeader .protocolFeeAccrued
      (.ofFields
        [("epoch", .string (fmt.numericText row.epoch)), ("sender", .string row.sender),
          ("amount", .string (fmt.numericText row.amount))])
      none (some row.sender)

end TypedEventReader

/-! ## Where they agree -/

section Agreement

variable {fmt : Formats} {tx : TxInformation} {now : ℤ} {event : MultiVaultEvent}
  {typed : TypedEvent} {header : LogHeader} {sequenceNumber : ℕ} {ingestedAt : ℤ}

namespace MultiVaultEvent

variable (fmt : Formats)

/-- The term of a log, if it has one. -/
def termId? : MultiVaultEvent → Option String
  | atomCreated event => some (fmt.debugBytes32 event.termId)
  | atomContextRegistered event => some (fmt.debugBytes32 event.termId)
  | tripleCreated event => some (fmt.debugBytes32 event.termId)
  | deposited event => some (fmt.debugBytes32 event.termId)
  | redeemed event => some (fmt.debugBytes32 event.termId)
  | sharePriceChanged event => some (fmt.debugBytes32 event.termId)
  | protocolFeeAccrued _ => none

/-- The account that the queries of the typed tables give for a log. -/
def subject? : MultiVaultEvent → Option String
  | deposited event => some (fmt.debugAddress event.receiver)
  | redeemed event => some (fmt.debugAddress event.receiver)
  | protocolFeeAccrued event => some (fmt.debugAddress event.sender)
  | _ => none

/-- Whether the two readers give the same account for a log. -/
def ReadsAlike : MultiVaultEvent → Prop
  | redeemed event => event.sender = event.receiver
  | protocolFeeAccrued _ => False
  | _ => True

end MultiVaultEvent

/-- A decimal that was read from the text of an integer is given back as that
text. -/
theorem Formats.Lawful.numericText_toBd (hfmt : fmt.Lawful) {n : U256} {d : BigDecimal}
    (h : toBd fmt (fmt.u256ToString n) = some d) : fmt.numericText d = fmt.u256ToString n := by
  obtain ⟨d', hd', htext⟩ := hfmt.numericText_parse n
  cases h.symm.trans hd'
  exact htext

/-- A handler reads every integer it prints. -/
theorem Formats.Lawful.exists_toBd (hfmt : fmt.Lawful) (n : U256) :
    ∃ d, toBd fmt (fmt.u256ToString n) = some d :=
  (hfmt.numericText_parse n).imp fun _ h => h.1

/-- A handler does not panic. -/
theorem MultiVaultEvent.exists_typed (hfmt : fmt.Lawful) (header : LogHeader)
    (event : MultiVaultEvent) : ∃ typed, event.typed fmt header = some typed := by
  have hbd : ∀ n : U256, (toBd fmt (fmt.u256ToString n)).isSome := fun n =>
    Option.isSome_iff_exists.mpr (hfmt.exists_toBd n)
  refine Option.isSome_iff_exists.mp ?_
  cases event <;> simp [MultiVaultEvent.typed, AtomCreated.typed, AtomContextRegistered.typed,
    TripleCreated.typed, Deposited.typed, Redeemed.typed, SharePriceChanged.typed,
    ProtocolFeeAccrued.typed, b256ToBd, hbd, Option.isSome_bind]

/-- **The payload that is built is the payload that is stored**, and the other
columns are those of the log. -/
theorem TypedEventReader.sqlFragment_eq (hfmt : fmt.Lawful)
    (h : event.typed fmt header = some typed) :
    sqlFragment fmt sequenceNumber typed
      = select sequenceNumber header event.type (event.eventData fmt) (event.termId? fmt)
          (event.subject? fmt) := by
  cases event with
  | atomCreated event =>
    simp only [MultiVaultEvent.typed, AtomCreated.typed, Option.bind_eq_bind,
      Option.map_eq_some_iff, Option.bind_eq_some_iff, Option.pure_def, Option.some.injEq] at h
    obtain ⟨_, ⟨_, -, rfl⟩, rfl⟩ := h
    rfl
  | atomContextRegistered event =>
    simp only [MultiVaultEvent.typed, AtomContextRegistered.typed, Option.bind_eq_bind,
      Option.map_eq_some_iff, Option.bind_eq_some_iff, Option.pure_def, Option.some.injEq] at h
    obtain ⟨_, ⟨_, -, rfl⟩, rfl⟩ := h
    refine congrArg (fun eventData => select _ _ _ eventData _ _) ?_
    -- the two objects have the same fields in another order
    show Finmap.insert "uris" _ _ = Finmap.insert "uris" _ _
    exact congrArg _ (Finmap.insert_insert_of_ne _ (show "registrant" ≠ "term_id" by decide))
  | tripleCreated event =>
    simp only [MultiVaultEvent.typed, TripleCreated.typed, Option.bind_eq_bind,
      Option.map_eq_some_iff, Option.bind_eq_some_iff, Option.pure_def, Option.some.injEq] at h
    obtain ⟨_, ⟨_, -, _, -, _, -, _, -, rfl⟩, rfl⟩ := h
    rfl
  | deposited event =>
    simp only [MultiVaultEvent.typed, Deposited.typed, Option.bind_eq_bind, Option.map_eq_some_iff,
      Option.bind_eq_some_iff, Option.pure_def, Option.some.injEq] at h
    obtain ⟨_, ⟨_, -, _, hcurve, _, hassets, _, hafter, _, hshares, _, htotal, rfl⟩, rfl⟩ := h
    refine congrArg (fun eventData => select _ _ _ eventData _ _) ?_
    simp only [hfmt.numericText_toBd hcurve, hfmt.numericText_toBd hassets,
      hfmt.numericText_toBd hafter, hfmt.numericText_toBd hshares, hfmt.numericText_toBd htotal]
    rfl
  | redeemed event =>
    simp only [MultiVaultEvent.typed, Redeemed.typed, Option.bind_eq_bind, Option.map_eq_some_iff,
      Option.bind_eq_some_iff, Option.pure_def, Option.some.injEq] at h
    obtain ⟨_, ⟨_, -, _, hcurve, _, hshares, _, htotal, _, hassets, _, hfees, rfl⟩, rfl⟩ := h
    refine congrArg (fun eventData => select _ _ _ eventData _ _) ?_
    simp only [hfmt.numericText_toBd hcurve, hfmt.numericText_toBd hshares,
      hfmt.numericText_toBd htotal, hfmt.numericText_toBd hassets, hfmt.numericText_toBd hfees]
    rfl
  | sharePriceChanged event =>
    simp only [MultiVaultEvent.typed, SharePriceChanged.typed, Option.bind_eq_bind,
      Option.map_eq_some_iff, Option.bind_eq_some_iff, Option.pure_def, Option.some.injEq] at h
    obtain ⟨_, ⟨_, -, _, hcurve, _, hprice, _, hassets, _, htotal, rfl⟩, rfl⟩ := h
    refine congrArg (fun eventData => select _ _ _ eventData _ _) ?_
    simp only [hfmt.numericText_toBd hcurve, hfmt.numericText_toBd hprice,
      hfmt.numericText_toBd hassets, hfmt.numericText_toBd htotal]
    rfl
  | protocolFeeAccrued event =>
    simp only [MultiVaultEvent.typed, ProtocolFeeAccrued.typed, Option.bind_eq_bind,
      Option.map_eq_some_iff, Option.bind_eq_some_iff, Option.pure_def, Option.some.injEq] at h
    obtain ⟨_, ⟨_, hepoch, _, hamount, rfl⟩, rfl⟩ := h
    refine congrArg (fun eventData => select _ _ _ eventData _ _) ?_
    simp only [hfmt.numericText_toBd hepoch, hfmt.numericText_toBd hamount]
    rfl

/-- The generated term of a log is the one of its row. -/
theorem EventReader.termId_eq (fmt : Formats) (event : MultiVaultEvent) :
    termId fmt (event.eventData fmt) = event.termId? fmt := by
  cases event <;>
    simp [termId, JsonObject.text, MultiVaultEvent.eventData, AtomCreated.eventData,
      AtomContextRegistered.eventData, TripleCreated.eventData, Deposited.eventData,
      Redeemed.eventData, SharePriceChanged.eventData, ProtocolFeeAccrued.eventData,
      JsonObject.ofFields, MultiVaultEvent.termId?, Finmap.lookup_insert_of_ne]

/-- **The generated account is the one that the typed tables give exactly if the
log reads alike.** -/
theorem EventReader.entityId_eq_iff (hfmt : fmt.Lawful) (event : MultiVaultEvent) :
    event.subject? fmt = entityId fmt event.type.asStr (event.eventData fmt)
      ↔ event.ReadsAlike := by
  cases event with
  | redeemed event =>
    have hgenerated : entityId fmt "Redeemed" (event.eventData fmt)
        = some (fmt.debugAddress event.sender) := by
      simp [entityId, JsonObject.text, Redeemed.eventData, JsonObject.ofFields,
        Finmap.lookup_insert_of_ne]
    show some (fmt.debugAddress event.receiver) = entityId fmt "Redeemed" (event.eventData fmt)
      ↔ event.sender = event.receiver
    rw [hgenerated, Option.some_inj, hfmt.debugAddress_injective.eq_iff, eq_comm]
  | _ =>
    simp [entityId, JsonObject.text, MultiVaultEvent.eventData, AtomCreated.eventData,
      Deposited.eventData, JsonObject.ofFields, MultiVaultEvent.subject?, MultiVaultEvent.type,
      EventType.asStr, MultiVaultEvent.ReadsAlike, Finmap.lookup_insert_of_ne]

/-- **The two readers return the same event exactly if its log is no protocol
fee and no redemption to somebody else**: of every log a handler writes, they
agree on the payload as a JSON value and on every column but `entity_id`. -/
theorem readers_agree_iff (hfmt : fmt.Lawful) (tx : TxInformation) (now : ℤ)
    (event : MultiVaultEvent) (sequenceNumber : ℕ) (ingestedAt : ℤ) :
    ∃ typed, event.typed fmt (tx.header fmt now) = some typed
      ∧ ((TypedEventReader.sqlFragment fmt sequenceNumber typed).SameEvent
          (EventReader.row fmt (event.record fmt (tx.header fmt now)) sequenceNumber ingestedAt)
        ↔ event.ReadsAlike) := by
  obtain ⟨typed, htyped⟩ := event.exists_typed hfmt (tx.header fmt now)
  refine ⟨typed, htyped, ?_⟩
  rw [TypedEventReader.sqlFragment_eq hfmt htyped, ← EventReader.entityId_eq_iff hfmt]
  unfold EventRow.SameEvent TypedEventReader.select EventReader.row MultiVaultEvent.record
  simp [EventReader.termId_eq]

end Agreement

/-! ## A redemption to somebody else -/

/-- A redemption of one account's shares to another account. -/
def redeemedToOther : Redeemed where
  sender := 0xa
  receiver := 0xb
  termId := 7
  curveId := 1
  shares := 10
  totalShares := 0
  assets := 10
  fees := 0
  vaultType := 0

/-- A transaction with one log. -/
def oneLog : TxInformation where
  blockNumber := 100
  blockTimestamp := some 1700000000
  blockHash := 1
  transactionHash := 2
  logIndex := 0

/-- The two readers agree on a deposit. -/
theorem readers_agree_deposit :
    ∃ typed, (MultiVaultEvent.deposited ⟨0xa, 0xb, 7, 1, 10, 10, 10, 10, 0⟩).typed .exact
        (oneLog.header .exact 0) = some typed
      ∧ ((TypedEventReader.sqlFragment .exact 1 typed).SameEvent (EventReader.row .exact
          ((MultiVaultEvent.deposited ⟨0xa, 0xb, 7, 1, 10, 10, 10, 10, 0⟩).record .exact
            (oneLog.header .exact 0)) 1 0)
        ↔ True) :=
  readers_agree_iff Formats.exact_lawful oneLog 0
    (.deposited ⟨0xa, 0xb, 7, 1, 10, 10, 10, 10, 0⟩) 1 0

/-- **The two readers disagree on a redemption to somebody else.** -/
theorem readers_disagree_redeemedToOther :
    ∃ typed, (MultiVaultEvent.redeemed redeemedToOther).typed .exact (oneLog.header .exact 0)
        = some typed
      ∧ ¬ (TypedEventReader.sqlFragment .exact 1 typed).SameEvent (EventReader.row .exact
        ((MultiVaultEvent.redeemed redeemedToOther).record .exact (oneLog.header .exact 0))
          1 0) := by
  obtain ⟨typed, htyped⟩ :=
    (MultiVaultEvent.redeemed redeemedToOther).exists_typed Formats.exact_lawful
      (oneLog.header .exact 0)
  refine ⟨typed, htyped, fun hsame => ?_⟩
  rw [TypedEventReader.sqlFragment_eq Formats.exact_lawful htyped] at hsame
  have hentity : (MultiVaultEvent.redeemed redeemedToOther).subject? .exact
      = EventReader.entityId .exact "Redeemed" (redeemedToOther.eventData .exact) :=
    congrArg EventRow.entityId hsame
  have halike : redeemedToOther.sender = redeemedToOther.receiver :=
    (EventReader.entityId_eq_iff Formats.exact_lawful (.redeemed redeemedToOther)).mp hentity
  exact absurd halike (by decide)
