import IntuitionCore.Library.Consumer
import IntuitionCore.Library.PrefixCode
import IntuitionCore.Library.RowBags
import IntuitionCore.Projections.Worker

/-!
# The event log and its facts

A projection writes a canonical row of every event, and a fact of every deposit,
redemption and fee. The rows have the id of their event as primary key, and a row that
is there is left. So the tables settle, and it is of no matter how often an event is
processed: the first one of an id counts.

An id is a transaction, a position in it, and a type, with dashes in between. No type
has a dash, so it tells the three.
-/

/-- A row of `event`. -/
structure FactEventRow where
  eventType : String
  blockNumber : ℕ
  transactionHash : String
  logIndex : ℕ
  ts : ℤ
  deriving DecidableEq, Repr

/-- A row of `deposit_fact`. -/
structure DepositFactRow where
  senderId : String
  receiverId : String
  termId : String
  curveId : String
  vaultType : ℤ
  assets : ℚ
  assetsAfterFees : ℚ
  shares : ℚ
  totalShares : ℚ
  blockNumber : ℕ
  transactionHash : String
  ts : ℤ
  deriving DecidableEq, Repr

/-- A row of `redemption_fact`. -/
structure RedemptionFactRow where
  senderId : String
  receiverId : String
  termId : String
  curveId : String
  vaultType : ℤ
  shares : ℚ
  totalShares : ℚ
  assets : ℚ
  fees : ℚ
  blockNumber : ℕ
  transactionHash : String
  ts : ℤ
  deriving DecidableEq, Repr

/-- A row of `fee_transfer_fact`. -/
structure FeeTransferFactRow where
  senderId : String
  amount : ℚ
  epoch : String
  blockNumber : ℕ
  transactionHash : String
  ts : ℤ
  deriving DecidableEq, Repr

/-- The tables of the projection, each by `event_id`. -/
structure FactDb where
  event : Table String FactEventRow := ∅
  depositFact : Table String DepositFactRow := ∅
  redemptionFact : Table String RedemptionFactRow := ∅
  feeTransferFact : Table String FeeTransferFactRow := ∅

/-- The id of an event: `{transaction_hash}-{log_index}-{event_type}`. -/
def EventMetadata.eventId (m : EventMetadata) : String :=
  s!"{m.transactionHash}-{m.logIndex}-{m.eventType}"

/-- Read backwards, an id is the type, the position and the transaction. -/
theorem EventMetadata.toList_eventId (m : EventMetadata) :
    m.eventId.toList.reverse = m.eventType.toList.reverse
      ++ '-' :: ((Nat.toDigits 10 m.logIndex).reverse
        ++ '-' :: m.transactionHash.toList.reverse) := by
  unfold eventId
  simp [toString, Nat.toList_repr]

/-- **An id tells the transaction, the position and the type**, as no type has a dash. -/
theorem EventMetadata.eventId_inj {m m' : EventMetadata} (ht : '-' ∉ m.eventType.toList)
    (ht' : '-' ∉ m'.eventType.toList) (h : m.eventId = m'.eventId) :
    m.transactionHash = m'.transactionHash ∧ m.logIndex = m'.logIndex
      ∧ m.eventType = m'.eventType := by
  have hrun : ∀ {l l' : List Char}, '-' ∉ l → '-' ∉ l' →
      PrefixCode.ToldApart (PrefixCode.BeginsOutside (· ≠ '-')) (l.reverse = l'.reverse)
        l.reverse l'.reverse := fun hl hl' =>
    PrefixCode.toldApart_run
      (fun c hc heq => hl (heq ▸ List.mem_reverse.mp hc))
      (fun c hc heq => hl' (heq ▸ List.mem_reverse.mp hc))
  have hdash : ∀ l : List Char, PrefixCode.BeginsOutside (· ≠ '-') ('-' :: l) := by
    intro l c hc
    cases hc
    exact not_not_intro rfl
  have hdigits : ∀ n : ℕ, '-' ∉ Nat.toDigits 10 n := fun n =>
    Externals.not_mem_toDigits (by decide) n
  have heq := congrArg (fun s => s.toList.reverse) h
  simp only [toList_eventId] at heq
  obtain ⟨htype, hrest⟩ := hrun ht ht' _ _ (hdash _) (hdash _) heq
  obtain ⟨hindex, hrest⟩ :=
    hrun (hdigits _) (hdigits _) _ _ (hdash _) (hdash _) (List.cons.inj hrest).2
  refine ⟨String.toList_injective (List.reverse_injective (List.cons.inj hrest).2), ?_,
    String.toList_injective (List.reverse_injective htype)⟩
  rw [← Nat.ofDigitChars_ten_toDigits (n := m.logIndex),
    ← Nat.ofDigitChars_ten_toDigits (n := m'.logIndex), List.reverse_injective hindex]

namespace EventLogProjection

variable (ext : Externals)

/-- The canonical row of an event. -/
def eventRow (m : EventMetadata) : FactEventRow where
  eventType := m.eventType
  blockNumber := m.blockNumber
  transactionHash := m.transactionHash
  logIndex := m.logIndex
  ts := m.blockTimestamp

def depositFactRow (metadata : EventMetadata) (data : DepositedRecord) : DepositFactRow where
  senderId := data.sender
  receiverId := data.receiver
  termId := data.termId
  curveId := ext.toString data.curveId
  vaultType := data.vaultType
  assets := data.assets.val
  assetsAfterFees := data.assetsAfterFees.val
  shares := data.shares.val
  totalShares := data.totalShares.val
  blockNumber := metadata.blockNumber
  transactionHash := metadata.transactionHash
  ts := metadata.blockTimestamp

def redemptionFactRow (metadata : EventMetadata) (data : RedeemedRecord) :
    RedemptionFactRow where
  senderId := data.sender
  receiverId := data.receiver
  termId := data.termId
  curveId := ext.toString data.curveId
  vaultType := data.vaultType
  shares := data.shares.val
  totalShares := data.totalShares.val
  assets := data.assets.val
  fees := data.fees.val
  blockNumber := metadata.blockNumber
  transactionHash := metadata.transactionHash
  ts := metadata.blockTimestamp

def feeTransferFactRow (metadata : EventMetadata) (data : ProtocolFeeAccruedRecord) :
    FeeTransferFactRow where
  senderId := data.sender
  amount := data.amount.val
  epoch := ext.toString data.epoch
  blockNumber := metadata.blockNumber
  transactionHash := metadata.transactionHash
  ts := metadata.blockTimestamp

def insertDepositFactTyped (tx : FactDb) (metadata : EventMetadata) (data : DepositedRecord)
    (eventId : String) : FactDb :=
  { tx with
    depositFact := tx.depositFact.insertIfAbsent eventId (depositFactRow ext metadata data) }

def insertRedemptionFactTyped (tx : FactDb) (metadata : EventMetadata) (data : RedeemedRecord)
    (eventId : String) : FactDb :=
  { tx with
    redemptionFact :=
      tx.redemptionFact.insertIfAbsent eventId (redemptionFactRow ext metadata data) }

def insertFeeTransferFactTyped (tx : FactDb) (metadata : EventMetadata)
    (data : ProtocolFeeAccruedRecord) (eventId : String) : FactDb :=
  { tx with
    feeTransferFact :=
      tx.feeTransferFact.insertIfAbsent eventId (feeTransferFactRow ext metadata data) }

/-- What the batch loop does with one event: the canonical row of any event, and the
fact of one that moves assets. -/
def processEvent (tx : FactDb) (event : ParsedEvent) : FactDb :=
  let m := event.metadata
  let eventId := m.eventId
  let tx := { tx with event := tx.event.insertIfAbsent eventId (eventRow m) }
  match event with
  | .deposited metadata data => insertDepositFactTyped ext tx metadata data eventId
  | .redeemed metadata data => insertRedemptionFactTyped ext tx metadata data eventId
  | .protocolFeeAccrued metadata data => insertFeeTransferFactTyped ext tx metadata data eventId
  | _ => tx

def processParsedBatch (tx : FactDb) (events : List ParsedEvent) : FactDb :=
  events.foldl (processEvent ext) tx

/-! ## What an event asks for -/

/-- The canonical row of an event, under its id. -/
def eventEntry (event : ParsedEvent) : Option (String × FactEventRow) :=
  some (event.metadata.eventId, eventRow event.metadata)

def depositEntry : ParsedEvent → Option (String × DepositFactRow)
  | .deposited metadata data => some (metadata.eventId, depositFactRow ext metadata data)
  | _ => none

def redemptionEntry : ParsedEvent → Option (String × RedemptionFactRow)
  | .redeemed metadata data => some (metadata.eventId, redemptionFactRow ext metadata data)
  | _ => none

def feeEntry : ParsedEvent → Option (String × FeeTransferFactRow)
  | .protocolFeeAccrued metadata data =>
    some (metadata.eventId, feeTransferFactRow ext metadata data)
  | _ => none

/-- **An event inserts a row into each table, or none.** -/
theorem processEvent_eq (tx : FactDb) (event : ParsedEvent) :
    processEvent ext tx event =
      { event := tx.event.insertEntry (eventEntry event)
        depositFact := tx.depositFact.insertEntry (depositEntry ext event)
        redemptionFact := tx.redemptionFact.insertEntry (redemptionEntry ext event)
        feeTransferFact := tx.feeTransferFact.insertEntry (feeEntry ext event) } := by
  cases event <;> rfl

/-- **The tables settle.** -/
theorem settles_processEvent : Settles (processEvent ext) := by
  refine Settles.of_view (fun db : FactDb =>
    (db.event, db.depositFact, db.redemptionFact, db.feeTransferFact)) (fun a b h => ?_)
    ((Table.settles_insertEntry eventEntry).prod
      ((Table.settles_insertEntry (depositEntry ext)).prod
        ((Table.settles_insertEntry (redemptionEntry ext)).prod
          (Table.settles_insertEntry (feeEntry ext))))) fun db event => ?_
  · cases a
    cases b
    simpa using h
  · rw [processEvent_eq]

/-- The tables after some events, each of them by itself. -/
theorem foldl_processEvent (events : List ParsedEvent) (tx : FactDb) :
    events.foldl (processEvent ext) tx =
      { event := events.foldl (fun t e => t.insertEntry (eventEntry e)) tx.event
        depositFact := events.foldl (fun t e => t.insertEntry (depositEntry ext e)) tx.depositFact
        redemptionFact :=
          events.foldl (fun t e => t.insertEntry (redemptionEntry ext e)) tx.redemptionFact
        feeTransferFact :=
          events.foldl (fun t e => t.insertEntry (feeEntry ext e)) tx.feeTransferFact } := by
  induction events generalizing tx with
  | nil => rfl
  | cons event events ih =>
    rw [List.foldl_cons, ih, processEvent_eq]
    rfl

/-! ## What the tables hold -/

/-- **Every fact has its canonical row.** -/
structure Referenced (db : FactDb) : Prop where
  deposit : ∀ id, db.depositFact.lookup id ≠ none → db.event.lookup id ≠ none
  redemption : ∀ id, db.redemptionFact.lookup id ≠ none → db.event.lookup id ≠ none
  fee : ∀ id, db.feeTransferFact.lookup id ≠ none → db.event.lookup id ≠ none

/-- An event whose fact is inserted has its canonical row inserted. -/
theorem eventEntry_of_entry {event : ParsedEvent} {id : String} :
    (∃ r, depositEntry ext event = some (id, r)) ∨ (∃ r, redemptionEntry ext event = some (id, r))
      ∨ (∃ r, feeEntry ext event = some (id, r)) → ∃ r, eventEntry event = some (id, r) := by
  cases event <;> simp +contextual [depositEntry, redemptionEntry, feeEntry, eventEntry,
    ParsedEvent.metadata]

theorem referenced_foldl (events : List ParsedEvent) :
    Referenced (events.foldl (processEvent ext) {}) := by
  have hempty : ∀ {ρ : Type} (id : String), (∅ : Table String ρ).lookup id = none :=
    fun _ => Finmap.lookup_empty _
  rw [foldl_processEvent]
  refine ⟨fun id h => ?_, fun id h => ?_, fun id h => ?_⟩
  all_goals
    rw [Table.lookup_foldl_insertEntry_ne_none] at h ⊢
    obtain h | ⟨e, he, hr⟩ := h
    · exact absurd (hempty id) h
  · exact .inr ⟨e, he, eventEntry_of_entry ext (.inl hr)⟩
  · exact .inr ⟨e, he, eventEntry_of_entry ext (.inr (.inl hr))⟩
  · exact .inr ⟨e, he, eventEntry_of_entry ext (.inr (.inr hr))⟩

end EventLogProjection
