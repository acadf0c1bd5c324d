import IntuitionCore.Projections.Decimal

/-!
# Events

An event is stored as an envelope and a JSON payload, under the name of its
type. A worker parses the events of a batch once, before it applies them: the
type decides at which record the payload is read, and an event that cannot be
read is kept as an unknown one, so that parsing never shortens a batch.

A payload is a JSON value, and all that is ever asked of it is which record it
reads as. It is modelled by the answers.
-/

/-- The types of events. -/
inductive EventType where
  | atomCreated
  | atomContextRegistered
  | tripleCreated
  | deposited
  | redeemed
  | sharePriceChanged
  | protocolFeeAccrued
  deriving DecidableEq, Repr

namespace EventType

/-- The name a type is stored under. -/
def asStr : EventType → String
  | atomCreated => "AtomCreated"
  | atomContextRegistered => "AtomContextRegistered"
  | tripleCreated => "TripleCreated"
  | deposited => "Deposited"
  | redeemed => "Redeemed"
  | sharePriceChanged => "SharePriceChanged"
  | protocolFeeAccrued => "ProtocolFeeAccrued"

/-- The type stored under a name. -/
def fromStr (s : String) : Option EventType :=
  match s with
  | "AtomCreated" => some atomCreated
  | "AtomContextRegistered" => some atomContextRegistered
  | "TripleCreated" => some tripleCreated
  | "Deposited" => some deposited
  | "Redeemed" => some redeemed
  | "SharePriceChanged" => some sharePriceChanged
  | "ProtocolFeeAccrued" => some protocolFeeAccrued
  | _ => none

@[simp] theorem fromStr_asStr (t : EventType) : fromStr t.asStr = some t := by
  cases t <;> rfl

/-- A name is read as a type only if the type is stored under it. -/
theorem asStr_of_fromStr {s : String} {t : EventType} (h : fromStr s = some t) :
    t.asStr = s := by
  unfold fromStr at h
  split at h <;> cases h <;> rfl

end EventType

/-! ## Records -/

structure AtomCreatedRecord where
  creator : String
  termId : String
  atomData : String
  atomWallet : String
  deriving DecidableEq, Repr

structure AtomContextRegisteredRecord where
  registrant : String
  termId : String
  uris : List String
  deriving DecidableEq, Repr

structure TripleCreatedRecord where
  creator : String
  termId : String
  subjectId : String
  predicateId : String
  objectId : String
  deriving DecidableEq, Repr

structure DepositedRecord where
  sender : String
  receiver : String
  termId : String
  curveId : BigDecimal
  assets : BigDecimal
  assetsAfterFees : BigDecimal
  shares : BigDecimal
  totalShares : BigDecimal
  vaultType : ℤ
  deriving DecidableEq, Repr

structure RedeemedRecord where
  sender : String
  receiver : String
  termId : String
  curveId : BigDecimal
  shares : BigDecimal
  totalShares : BigDecimal
  assets : BigDecimal
  fees : BigDecimal
  vaultType : ℤ
  deriving DecidableEq, Repr

structure SharePriceChangedRecord where
  termId : String
  curveId : BigDecimal
  sharePrice : BigDecimal
  totalAssets : BigDecimal
  totalShares : BigDecimal
  vaultType : ℤ
  deriving DecidableEq, Repr

structure ProtocolFeeAccruedRecord where
  epoch : BigDecimal
  sender : String
  amount : BigDecimal
  deriving DecidableEq, Repr

/-- A JSON payload: what it reads as, at each record. -/
structure EventData where
  atomCreated : Option AtomCreatedRecord := none
  atomContextRegistered : Option AtomContextRegisteredRecord := none
  tripleCreated : Option TripleCreatedRecord := none
  deposited : Option DepositedRecord := none
  redeemed : Option RedeemedRecord := none
  sharePriceChanged : Option SharePriceChangedRecord := none
  protocolFeeAccrued : Option ProtocolFeeAccruedRecord := none
  deriving DecidableEq, Repr

/-! ## Stored and parsed events -/

/-- A row of `event_store`. -/
structure StoredEvent where
  sequenceNumber : ℕ
  blockNumber : ℕ := 0
  blockTimestamp : ℤ := 0
  blockHash : String := ""
  transactionHash : String := ""
  logIndex : ℕ := 0
  eventType : String
  eventData : EventData
  termId : Option String := none
  entityId : Option String := none
  isCanonical : Bool := true
  ingestedAt : ℤ := 0
  deriving DecidableEq, Repr

/-- The envelope of an event. -/
structure EventMetadata where
  sequenceNumber : ℕ
  blockNumber : ℕ
  blockTimestamp : ℤ
  blockHash : String
  transactionHash : String
  logIndex : ℕ
  eventType : String
  termId : Option String
  entityId : Option String
  isCanonical : Bool
  ingestedAt : ℤ
  deriving DecidableEq, Repr

def EventMetadata.fromEvent (event : StoredEvent) : EventMetadata where
  sequenceNumber := event.sequenceNumber
  blockNumber := event.blockNumber
  blockTimestamp := event.blockTimestamp
  blockHash := event.blockHash
  transactionHash := event.transactionHash
  logIndex := event.logIndex
  eventType := event.eventType
  termId := event.termId
  entityId := event.entityId
  isCanonical := event.isCanonical
  ingestedAt := event.ingestedAt

/-- An event as the projections see it. -/
inductive ParsedEvent where
  | atomCreated (metadata : EventMetadata) (data : AtomCreatedRecord)
  | atomContextRegistered (metadata : EventMetadata) (data : AtomContextRegisteredRecord)
  | tripleCreated (metadata : EventMetadata) (data : TripleCreatedRecord)
  | deposited (metadata : EventMetadata) (data : DepositedRecord)
  | redeemed (metadata : EventMetadata) (data : RedeemedRecord)
  | sharePriceChanged (metadata : EventMetadata) (data : SharePriceChangedRecord)
  | protocolFeeAccrued (metadata : EventMetadata) (data : ProtocolFeeAccruedRecord)
  | unknown (event : StoredEvent)
  deriving DecidableEq, Repr

/-- The payload does not read as the record of its type. -/
structure ParseError where
  eventType : String
  deriving DecidableEq, Repr

namespace ParsedEvent

/-- Read a payload at the record of a type. -/
def parseVariant {α : Type} (eventType : EventType) (variant : EventMetadata → α → ParsedEvent)
    (metadata : EventMetadata) (data : Option α) : Except ParseError ParsedEvent :=
  match data with
  | some data => .ok (variant metadata data)
  | none => .error ⟨eventType.asStr⟩

def parse (event : StoredEvent) : Except ParseError ParsedEvent :=
  let metadata := EventMetadata.fromEvent event
  match EventType.fromStr event.eventType with
  | none => .ok (unknown event)
  | some .atomCreated =>
    parseVariant .atomCreated atomCreated metadata event.eventData.atomCreated
  | some .atomContextRegistered =>
    parseVariant .atomContextRegistered atomContextRegistered metadata
      event.eventData.atomContextRegistered
  | some .tripleCreated =>
    parseVariant .tripleCreated tripleCreated metadata event.eventData.tripleCreated
  | some .deposited => parseVariant .deposited deposited metadata event.eventData.deposited
  | some .redeemed => parseVariant .redeemed redeemed metadata event.eventData.redeemed
  | some .sharePriceChanged =>
    parseVariant .sharePriceChanged sharePriceChanged metadata event.eventData.sharePriceChanged
  | some .protocolFeeAccrued =>
    parseVariant .protocolFeeAccrued protocolFeeAccrued metadata
      event.eventData.protocolFeeAccrued

/-- An event that does not parse is kept as an unknown one. -/
def parseOrUnknown (event : StoredEvent) : ParsedEvent :=
  match parse event with
  | .ok parsed => parsed
  | .error _ => unknown event

/-- The types whose events a parsed event can be; an unknown event is of no
type the projections know how to read. -/
def type? : ParsedEvent → Option EventType
  | atomCreated .. => some .atomCreated
  | atomContextRegistered .. => some .atomContextRegistered
  | tripleCreated .. => some .tripleCreated
  | deposited .. => some .deposited
  | redeemed .. => some .redeemed
  | sharePriceChanged .. => some .sharePriceChanged
  | protocolFeeAccrued .. => some .protocolFeeAccrued
  | unknown _ => none

/-- The envelope of an event. -/
def metadata : ParsedEvent → EventMetadata
  | atomCreated metadata _ => metadata
  | atomContextRegistered metadata _ => metadata
  | tripleCreated metadata _ => metadata
  | deposited metadata _ => metadata
  | redeemed metadata _ => metadata
  | sharePriceChanged metadata _ => metadata
  | protocolFeeAccrued metadata _ => metadata
  | unknown event => .fromEvent event

/-- **A parsed event is of the type it is stored under.** -/
theorem eventType_of_type? {event : StoredEvent} {t : EventType}
    (h : (parseOrUnknown event).type? = some t) : event.eventType = t.asStr := by
  have hvar : ∀ {α : Type} (u : EventType) (v : EventMetadata → α → ParsedEvent)
      (d : Option α), (∀ m a, (v m a).type? = some u) →
      EventType.fromStr event.eventType = some u →
      (match parseVariant u v (EventMetadata.fromEvent event) d with
        | .ok parsed => parsed
        | .error _ => unknown event).type? = some t → event.eventType = t.asStr := by
    intro α u v d hv hu ht
    cases d with
    | none => cases ht
    | some a =>
      have hut : some u = some t := (hv _ a).symm.trans ht
      rw [← EventType.asStr_of_fromStr hu, Option.some.inj hut]
  unfold parseOrUnknown parse at h
  cases hu : EventType.fromStr event.eventType with
  | none => rw [hu] at h; cases h
  | some u =>
    rw [hu] at h
    cases u <;> exact hvar _ _ _ (fun _ _ => rfl) hu h

/-- An event that stays unknown is the stored one. -/
theorem eq_of_parseOrUnknown_unknown {event raw : StoredEvent}
    (h : parseOrUnknown event = unknown raw) : raw = event := by
  have hvar : ∀ {α : Type} (u : EventType) (v : EventMetadata → α → ParsedEvent) (d : Option α),
      (∀ m a, v m a ≠ unknown raw) →
      (match parseVariant u v (EventMetadata.fromEvent event) d with
        | .ok parsed => parsed
        | .error _ => unknown event) = unknown raw → raw = event := by
    intro α u v d hv hd
    cases d with
    | none => exact (unknown.inj hd).symm
    | some a => exact absurd hd (hv _ a)
  unfold parseOrUnknown parse at h
  cases hu : EventType.fromStr event.eventType with
  | none => rw [hu] at h; exact (unknown.inj h).symm
  | some u =>
    rw [hu] at h
    cases u <;> refine hvar _ _ _ (fun m a hm => ?_) h <;> cases hm

/-- An event that creates an atom is read as one, or is kept as it is. -/
theorem parseOrUnknown_atomCreated {event : StoredEvent} (h : event.eventType = "AtomCreated") :
    parseOrUnknown event = unknown event
      ∨ ∃ data, parseOrUnknown event = atomCreated (.fromEvent event) data := by
  unfold parseOrUnknown parse
  rw [h]
  show (match parseVariant _ _ _ event.eventData.atomCreated with
    | .ok parsed => parsed | .error _ => _) = _ ∨ _
  cases event.eventData.atomCreated with
  | none => exact .inl rfl
  | some data => exact .inr ⟨data, rfl⟩

/-- An event that creates a triple is read as one, or is kept as it is. -/
theorem parseOrUnknown_tripleCreated {event : StoredEvent}
    (h : event.eventType = "TripleCreated") :
    parseOrUnknown event = unknown event
      ∨ ∃ data, parseOrUnknown event = tripleCreated (.fromEvent event) data := by
  unfold parseOrUnknown parse
  rw [h]
  show (match parseVariant _ _ _ event.eventData.tripleCreated with
    | .ok parsed => parsed | .error _ => _) = _ ∨ _
  cases event.eventData.tripleCreated with
  | none => exact .inl rfl
  | some data => exact .inr ⟨data, rfl⟩

/-- An event that registers the context of an atom is read as one, or is kept as it is. -/
theorem parseOrUnknown_atomContextRegistered {event : StoredEvent}
    (h : event.eventType = "AtomContextRegistered") :
    parseOrUnknown event = unknown event
      ∨ ∃ data, parseOrUnknown event = atomContextRegistered (.fromEvent event) data := by
  unfold parseOrUnknown parse
  rw [h]
  show (match parseVariant _ _ _ event.eventData.atomContextRegistered with
    | .ok parsed => parsed | .error _ => _) = _ ∨ _
  cases event.eventData.atomContextRegistered with
  | none => exact .inl rfl
  | some data => exact .inr ⟨data, rfl⟩

/-- A parsed event has the envelope it was parsed with. -/
theorem metadata_parseVariant {α : Type} {t : EventType} {v : EventMetadata → α → ParsedEvent}
    (hv : ∀ m a, (v m a).metadata = m) {m : EventMetadata} {d : Option α} {p : ParsedEvent}
    (h : parseVariant t v m d = .ok p) : p.metadata = m := by
  cases d with
  | none => cases h
  | some a =>
    cases h
    exact hv m a

theorem metadata_parse {e : StoredEvent} {p : ParsedEvent} (h : parse e = .ok p) :
    p.metadata = .fromEvent e := by
  unfold parse at h
  cases htype : EventType.fromStr e.eventType with
  | none =>
    rw [htype] at h
    cases h
    rfl
  | some t =>
    rw [htype] at h
    cases t <;> exact metadata_parseVariant (fun _ _ => rfl) h

/-- **An event keeps its envelope when it is parsed.** -/
theorem metadata_parseOrUnknown (e : StoredEvent) :
    (parseOrUnknown e).metadata = .fromEvent e := by
  unfold parseOrUnknown
  cases h : parse e with
  | ok p => exact metadata_parse h
  | error err => rfl

end ParsedEvent
