import IntuitionCore.Entities.Convergence
import IntuitionCore.Entities.TermIds

/-!
# The context of an atom

An account may register URIs as the context of an atom. The projection writes a row for each
of them, and a row of `kg.events` for the registration. What the bytes of a URI are is not
its business: it stores them in hexadecimal digits, and as a text beside that if they are one.

The rows refer to the atom, which another worker creates. Where the atom is missing, or
anything cannot be read, nothing of the batch is written, and the batch is tried again.
-/

/-- A row of `kg.node_contexts`. -/
structure NodeContextRow where
  nodeId : String
  eventSequence : ℕ
  blockNumber : ℕ
  blockTimestamp : ℤ
  blockHash : String
  transactionHash : String
  logIndex : ℕ
  ordinal : ℕ
  registrant : String
  uriHex : String
  uriText : Option String
  deriving DecidableEq, Repr

/-- The key of a context: the node, the transaction, the log, and the ordinal. -/
abbrev ContextKey := String × String × ℕ × ℕ

/-- The primary key of a row. -/
def NodeContextRow.key (row : NodeContextRow) : ContextKey :=
  (row.nodeId, row.transactionHash, row.logIndex, row.ordinal)

/-- The table `kg.node_contexts`. -/
abbrev NodeContexts := Table ContextKey NodeContextRow

namespace AtomContextDualProjection

def name : String := "atom_context:dual"

def eventTypes : List EventType := [.atomContextRegistered]

/-- The names of the types the projection consumes. -/
def eventTypeStrs : List String := eventTypes.map EventType.asStr

/-! ## URIs -/

/-- A URI that is ready to be stored. -/
structure ProjectedUri where
  ordinal : ℕ
  uriHex : String
  uriText : Option String
  deriving DecidableEq, Repr

/-- Bytes in lower-case digits. -/
def hexOf (bytes : List UInt8) : String := "0x" ++ .ofList (bytes.flatMap hexLower)

/-- The text that bytes are, if PostgreSQL can hold it. -/
def textOf (bytes : List UInt8) : Option String :=
  (String.fromUTF8? ⟨bytes.toArray⟩).filter fun value => !value.toList.contains '\x00'

def projectUri (ordinal : ℕ) (raw : String) : Except ProjectionError ProjectedUri :=
  if 2147483647 < ordinal then
    .error (.invalidEventData "AtomContextRegistered URI ordinal exceeds int32")
  else
    match stripPrefix "0x" raw with
    | none => .error (.invalidEventData s!"context URI at ordinal {ordinal} is not 0x-prefixed hex")
    | some encoded =>
      match hexDecode encoded.toList with
      | none =>
        .error (.invalidEventData s!"context URI at ordinal {ordinal} is not valid even-length hex")
      | some bytes => .ok ⟨ordinal, hexOf bytes, textOf bytes⟩

/-- Project the URIs from an ordinal on. -/
def projectUrisFrom (ordinal : ℕ) : List String → Except ProjectionError (List ProjectedUri)
  | [] => .ok []
  | raw :: uris => do return (← projectUri ordinal raw) :: (← projectUrisFrom (ordinal + 1) uris)

def projectUris (uris : List String) : Except ProjectionError (List ProjectedUri) :=
  projectUrisFrom 0 uris

/-! ## Rows -/

def contextEventId (transactionHash : String) (logIndex : ℕ) : String :=
  s!"atom_context:{transactionHash}:{logIndex}"

/-- The row of a URI. -/
def contextRow (metadata : EventMetadata) (data : AtomContextRegisteredRecord)
    (uri : ProjectedUri) : NodeContextRow where
  nodeId := data.termId
  eventSequence := metadata.sequenceNumber
  blockNumber := metadata.blockNumber
  blockTimestamp := metadata.blockTimestamp
  blockHash := metadata.blockHash
  transactionHash := metadata.transactionHash
  logIndex := metadata.logIndex
  ordinal := uri.ordinal
  registrant := data.registrant
  uriHex := uri.uriHex
  uriText := uri.uriText

/-- The row of `kg.events` of a registration. -/
def evidenceRow (metadata : EventMetadata) (data : AtomContextRegisteredRecord)
    (classificationType : String) (uris : List ProjectedUri) : KgEventRow where
  actorId := some data.registrant
  entityKind := "node"
  entityId := data.termId
  eventType := "atom_context_registered"
  classificationType := some classificationType
  isOnchain := true
  blockNumber := some metadata.blockNumber
  txHash := some metadata.transactionHash
  payload := .ofFields
    [("event_sequence", .number metadata.sequenceNumber),
      ("block_hash", .string metadata.blockHash),
      ("log_index", .number metadata.logIndex), ("is_canonical", .boolean metadata.isCanonical),
      ("uris", .array (uris.map fun uri => .string uri.uriHex))]

/-! ## The transaction -/

/-- The tables the projection works on. -/
structure Tables where
  kg : KgGraph := {}
  nodeContexts : NodeContexts := ∅

/-- Insert a row unless there is one of its key. There is a second unique index, on the number
of the event and the ordinal. -/
def insertContext (rows : NodeContexts) (row : NodeContextRow) :
    Except ProjectionError NodeContexts :=
  if row.key ∈ rows then .ok rows
  else if rows.count (fun _ other =>
      other.eventSequence = row.eventSequence && other.ordinal = row.ordinal) ≠ 0 then
    .error (.uniqueConstraintViolation "idx_node_contexts_event_ordinal")
  else .ok (rows.insert row.key row)

/-- Project a registration. The atom has to be there, under the very id. -/
def projectContextEvent (tx : Tables) (metadata : EventMetadata)
    (data : AtomContextRegisteredRecord) : Except ProjectionError Tables := do
  let node ← Result.okOr (tx.kg.nodes.lookup data.termId)
    (.database "no rows returned by a query that expected to return at least one row")
  let projectedUris ← projectUris data.uris
  let nodeContexts ← (projectedUris.map (contextRow metadata data)).foldlM insertContext
    tx.nodeContexts
  return {
    kg := { tx.kg with
      events := tx.kg.events.insertIfAbsent
        (metadata.blockTimestamp, contextEventId metadata.transactionHash metadata.logIndex)
        (evidenceRow metadata data node.classificationType projectedUris) }
    nodeContexts := nodeContexts }

/-- A registration that cannot be read stops the batch; other events are left alone. -/
def processParsedEvent (tx : Tables) : ParsedEvent → Except ProjectionError Tables
  | .atomContextRegistered metadata data => projectContextEvent tx metadata data
  | .unknown raw =>
    if raw.eventType = EventType.atomContextRegistered.asStr then
      .error (.invalidEventData
        s!"sequence {raw.sequenceNumber} could not be parsed as AtomContextRegistered")
    else .ok tx
  | _ => .ok tx

/-- Project the events of a batch, all or none. -/
def processParsedBatch (tx : Tables) (events : List ParsedEvent) : Except ProjectionError Tables :=
  events.foldlM processParsedEvent tx

/-! ## What an event asks for -/

end AtomContextDualProjection

open AtomContextDualProjection

/-- An event is read as a registration. -/
def Registers (e : StoredEvent) (data : AtomContextRegisteredRecord) : Prop :=
  ParsedEvent.parseOrUnknown e = .atomContextRegistered (.fromEvent e) data

/-- **A row is of a URI of an event**: of the one at its ordinal, of which it has the bytes. -/
def IsContextOf (e : StoredEvent) (key : ContextKey) (row : NodeContextRow) : Prop :=
  ∃ data i raw bytes, Registers e data ∧ data.uris[i]? = some raw ∧ hexBytes raw = some bytes
    ∧ row = contextRow (.fromEvent e) data ⟨i, hexOf bytes, textOf bytes⟩ ∧ key = row.key

/-- The key of the row of `kg.events` of a registration. -/
def StoredEvent.contextEventKey (e : StoredEvent) : ℤ × String :=
  (e.blockTimestamp, contextEventId e.transactionHash e.logIndex)

/-- A row of `kg.events` is of an event: it has its URIs, and the type of some node. -/
def IsEvidenceOf (e : StoredEvent) (key : ℤ × String) (row : KgEventRow) : Prop :=
  ∃ data classificationType uris, Registers e data ∧ projectUris data.uris = .ok uris
    ∧ row = evidenceRow (.fromEvent e) data classificationType uris ∧ key = e.contextEventKey

/-- **An event can be projected**: it is read, its URIs are, and its atom is there. -/
def AtomContextDualProjection.Projectable (tx : Tables) (e : StoredEvent) : Prop :=
  ∃ data uris, Registers e data ∧ projectUris data.uris = .ok uris
    ∧ tx.kg.nodes.lookup data.termId ≠ none

/-- **An event that has to wait**: it is not read, or the bytes of a URI are not, or its atom
is missing. -/
def AtomContextDualProjection.Waits (tx : Tables) (e : StoredEvent) : Prop :=
  (∀ data, ¬ Registers e data) ∨ ∃ data, Registers e data
    ∧ ((∃ raw ∈ data.uris, hexBytes raw = none) ∨ tx.kg.nodes.lookup data.termId = none)

/-- **What a transaction has stored of some events.** -/
structure AtomContextDualProjection.HasStored (tx : Tables) (batch : List StoredEvent)
    (tx' : Tables) : Prop where
  contexts : tx.nodeContexts.Adds (fun key row => ∃ e ∈ batch, IsContextOf e key row)
    tx'.nodeContexts
  evidence : tx.kg.events.Adds (fun key row => ∃ e ∈ batch, IsEvidenceOf e key row) tx'.kg.events
  nodes : tx'.kg.nodes = tx.kg.nodes
  projectable : ∀ e ∈ batch, Projectable tx e

/-- A record is what the event is read as. -/
theorem Registers.eq {e : StoredEvent} {data data' : AtomContextRegisteredRecord}
    (h : Registers e data) (h' : Registers e data') : data' = data :=
  (ParsedEvent.atomContextRegistered.inj (h'.symm.trans h)).2

/-- The key of a row names the log of its event. -/
theorem IsContextOf.log_eq {e : StoredEvent} {key : ContextKey} {row : NodeContextRow}
    (h : IsContextOf e key row) : key.2.1 = e.transactionHash ∧ key.2.2.1 = e.logIndex := by
  obtain ⟨data, i, raw, bytes, -, -, -, rfl, rfl⟩ := h
  exact ⟨rfl, rfl⟩

/-- The key of the row of `kg.events` is that of its event. -/
theorem IsEvidenceOf.key_eq {e : StoredEvent} {key : ℤ × String} {row : KgEventRow}
    (h : IsEvidenceOf e key row) : key = e.contextEventKey := by
  obtain ⟨data, classificationType, uris, -, -, -, hkey⟩ := h
  exact hkey

/-- An event has one row under a key. -/
theorem IsContextOf.row_eq {e : StoredEvent} {key : ContextKey} {row row' : NodeContextRow}
    (h : IsContextOf e key row) (h' : IsContextOf e key row') : row' = row := by
  obtain ⟨data, i, raw, bytes, hdata, hi, hbytes, rfl, rfl⟩ := h
  obtain ⟨data', i', raw', bytes', hdata', hi', hbytes', rfl, hkey⟩ := h'
  obtain rfl := hdata.eq hdata'
  obtain rfl : i = i' := congrArg (fun key : ContextKey => key.2.2.2) hkey
  obtain rfl := Option.some.inj (hi.symm.trans hi')
  obtain rfl := Option.some.inj (hbytes.symm.trans hbytes')
  rfl

namespace AtomContextDualProjection

variable {uris : List String} {projected : List ProjectedUri} {ordinal : ℕ}

/-! ### URIs -/

/-- A URI is projected if its bytes can be read. -/
theorem projectUri_eq_ok {raw : String} {uri : ProjectedUri}
    (h : projectUri ordinal raw = .ok uri) :
    ∃ bytes, hexBytes raw = some bytes ∧ uri = ⟨ordinal, hexOf bytes, textOf bytes⟩ := by
  unfold projectUri at h
  unfold hexBytes
  split at h
  · cases h
  cases hencoded : stripPrefix "0x" raw with
  | none =>
    rw [hencoded] at h
    cases h
  | some encoded =>
    rw [hencoded] at h
    cases hbytes : hexDecode encoded.toList with
    | none =>
      simp only [hbytes] at h
      cases h
    | some bytes =>
      simp only [hbytes] at h
      cases h
      exact ⟨bytes, hbytes, rfl⟩

/-- **One URI for each one, at its position.** -/
theorem mem_of_projectUrisFrom (h : projectUrisFrom ordinal uris = .ok projected)
    (uri : ProjectedUri) :
    uri ∈ projected ↔ ∃ i raw bytes, uris[i]? = some raw ∧ hexBytes raw = some bytes
      ∧ uri = ⟨ordinal + i, hexOf bytes, textOf bytes⟩ := by
  induction uris generalizing ordinal projected with
  | nil =>
    cases h
    simp
  | cons raw uris ih =>
    obtain ⟨first, hfirst, h⟩ := Result.bind_eq_ok.mp h
    obtain ⟨rest, hrest, h⟩ := Result.bind_eq_ok.mp h
    cases h
    obtain ⟨bytes, hbytes, rfl⟩ := projectUri_eq_ok hfirst
    rw [List.mem_cons, ih hrest]
    constructor
    · rintro (rfl | ⟨i, raw', bytes', hi, hbytes', rfl⟩)
      · exact ⟨0, raw, bytes, rfl, hbytes, rfl⟩
      · exact ⟨i + 1, raw', bytes', hi, hbytes', by rw [Nat.add_right_comm, Nat.add_assoc]⟩
    · rintro ⟨i, raw', bytes', hi, hbytes', rfl⟩
      cases i with
      | zero =>
        obtain rfl := Option.some.inj hi
        rw [hbytes] at hbytes'
        obtain rfl := Option.some.inj hbytes'
        exact .inl rfl
      | succ i =>
        exact .inr ⟨i, raw', bytes', hi, hbytes', by rw [Nat.add_right_comm, Nat.add_assoc]⟩

/-- URIs that are projected can all be read. -/
theorem exists_hexBytes (h : projectUrisFrom ordinal uris = .ok projected) :
    ∀ raw ∈ uris, ∃ bytes, hexBytes raw = some bytes := by
  induction uris generalizing ordinal projected with
  | nil => exact fun raw hraw => absurd hraw List.not_mem_nil
  | cons raw uris ih =>
    obtain ⟨first, hfirst, h⟩ := Result.bind_eq_ok.mp h
    obtain ⟨rest, hrest, -⟩ := Result.bind_eq_ok.mp h
    obtain ⟨bytes, hbytes, -⟩ := projectUri_eq_ok hfirst
    exact List.forall_mem_cons.mpr ⟨⟨bytes, hbytes⟩, ih hrest⟩

/-- An event that has to wait cannot be projected. -/
theorem Waits.not_projectable {tx : Tables} {e : StoredEvent} (h : Waits tx e) :
    ¬ Projectable tx e := by
  rintro ⟨data, uris, hdata, huris, hnode⟩
  obtain hnone | ⟨data', hdata', ⟨raw, hraw, hbytes⟩ | hmissing⟩ := h
  · exact hnone data hdata
  · obtain rfl := hdata.eq hdata'
    obtain ⟨bytes, hsome⟩ := exists_hexBytes huris raw hraw
    exact Option.some_ne_none bytes (hsome.symm.trans hbytes)
  · obtain rfl := hdata.eq hdata'
    exact hnode hmissing

/-! ### Transactions -/

variable {tx tx' : Tables} {e : StoredEvent}

/-- A row is inserted unless there is one of its key. -/
theorem insertContext_eq_ok {rows rows' : NodeContexts} {row : NodeContextRow}
    (h : insertContext rows row = .ok rows') : rows' = rows.insertIfAbsent row.key row := by
  unfold insertContext at h
  split at h
  · next hmem =>
    cases h
    refine (Table.insertEntry_eq_self.mpr fun hnone => ?_).symm
    exact Finmap.lookup_eq_none.mp hnone hmem
  · next hmem =>
    split at h
    · cases h
    · cases h
      unfold Table.insertIfAbsent Table.upsert Table.alter
      rw [Finmap.lookup_eq_none.mpr hmem]
      rfl

/-- **Projecting an event stores its rows.** -/
theorem hasStored_projectContextEvent {data : AtomContextRegisteredRecord}
    (hdata : Registers e data)
    (h : projectContextEvent tx (.fromEvent e) data = .ok tx') : HasStored tx [e] tx' := by
  obtain ⟨node, hnode, h⟩ := Result.bind_eq_ok.mp h
  obtain ⟨projected, hprojected, h⟩ := Result.bind_eq_ok.mp h
  obtain ⟨nodeContexts, hcontexts, h⟩ := Result.bind_eq_ok.mp h
  cases h
  have hread := mem_of_projectUrisFrom hprojected
  refine ⟨?_, ?_, rfl, ?_⟩
  · have hinsert : ∀ row ∈ projected.map (contextRow (.fromEvent e) data), ∀ rows rows',
        insertContext rows row = .ok rows' →
          Table.Adds (id rows) (fun key row' => key = row.key ∧ row' = row) (id rows') := by
      intro row _ rows rows' h
      rw [insertContext_eq_ok h]
      exact Table.adds_insertIfAbsent rows ⟨rfl, rfl⟩ fun _ _ h => h.1
    refine (Table.Adds.foldlM hinsert hcontexts).congr fun key row => ?_
    simp only [List.mem_map, List.mem_singleton, exists_eq_left]
    constructor
    · rintro ⟨_, ⟨uri, huri, rfl⟩, hkey, rfl⟩
      obtain ⟨i, raw, bytes, hi, hbytes, rfl⟩ := (hread uri).mp huri
      rw [Nat.zero_add] at hkey ⊢
      exact ⟨data, i, raw, bytes, hdata, hi, hbytes, rfl, hkey⟩
    · rintro ⟨data', i, raw, bytes, hdata', hi, hbytes, rfl, hkey⟩
      obtain rfl := hdata.eq hdata'
      refine ⟨_, ⟨_, (hread _).mpr ⟨i, raw, bytes, hi, hbytes, rfl⟩, rfl⟩, ?_⟩
      rw [Nat.zero_add]
      exact ⟨hkey, rfl⟩
  · have hof : IsEvidenceOf e e.contextEventKey
        (evidenceRow (.fromEvent e) data node.classificationType projected) :=
      ⟨data, _, _, hdata, hprojected, rfl, rfl⟩
    exact (Table.adds_insertIfAbsent tx.kg.events hof fun key row h => h.key_eq).congr
      fun key row => by simp
  · rintro e' he'
    obtain rfl := List.mem_singleton.mp he'
    refine ⟨data, projected, hdata, hprojected, ?_⟩
    rw [Result.okOr_eq_ok.mp hnode]
    exact Option.some_ne_none node

/-- The event of a batch is a registration that is stored, or the batch fails. -/
theorem hasStored_processParsedEvent (htype : e.eventType = "AtomContextRegistered")
    (h : processParsedEvent tx (ParsedEvent.parseOrUnknown e) = .ok tx') :
    HasStored tx [e] tx' := by
  obtain hparse | ⟨data, hparse⟩ := ParsedEvent.parseOrUnknown_atomContextRegistered htype
  · rw [hparse] at h
    exact absurd (Result.ite_error_eq_ok.mp h).1 (not_not_intro htype)
  · rw [hparse] at h
    exact hasStored_projectContextEvent hparse h

/-- What has been stored of some events and then of others. -/
theorem HasStored.append {tx'' : Tables} {batch batch' : List StoredEvent}
    (h : HasStored tx batch tx') (h' : HasStored tx' batch' tx'') :
    HasStored tx (batch ++ batch') tx'' where
  contexts := (h.contexts.trans h'.contexts).congr fun key row => by
    simp only [List.mem_append, or_and_right, exists_or]
  evidence := (h.evidence.trans h'.evidence).congr fun key row => by
    simp only [List.mem_append, or_and_right, exists_or]
  nodes := h'.nodes.trans h.nodes
  projectable e he := by
    obtain he | he := List.mem_append.mp he
    · exact h.projectable e he
    · have hlater := h'.projectable e he
      unfold Projectable at hlater ⊢
      rwa [h.nodes] at hlater

/-- **A batch that is not refused stores the rows of its events.** -/
theorem hasStored_processParsedBatch {batch : List StoredEvent}
    (htypes : ∀ e ∈ batch, e.eventType = "AtomContextRegistered")
    (h : processParsedBatch tx (parseBatchOnce batch) = .ok tx') : HasStored tx batch tx' := by
  unfold processParsedBatch parseBatchOnce at h
  induction batch generalizing tx with
  | nil =>
    cases h
    exact ⟨(Table.Adds.refl _).congr (by simp), (Table.Adds.refl _).congr (by simp), rfl, by simp⟩
  | cons e batch ih =>
    obtain ⟨htype, htypes⟩ := List.forall_mem_cons.mp htypes
    obtain ⟨mid, hmid, h⟩ := Result.bind_eq_ok.mp h
    exact (hasStored_processParsedEvent htype hmid).append (ih htypes h)

/-! ## Bytes -/

/-- A byte is read from its digits. -/
theorem exists_hexLower (b : UInt8) : ∃ c d x y, hexLower b = [c, d] ∧ hexDigit? c = some x
    ∧ hexDigit? d = some y ∧ x * 16 + y = b := by
  have hall : ∀ n < 256, (hexDecode (hexLower (.ofNat n))) = some [.ofNat n] := by decide +kernel
  have hb := hall b.toNat b.toNat_lt
  rw [UInt8.ofNat_toNat] at hb
  obtain ⟨x, hx, hb⟩ := Option.bind_eq_some_iff.mp hb
  obtain ⟨y, hy, hb⟩ := Option.bind_eq_some_iff.mp hb
  obtain ⟨rest, -, hb⟩ := Option.bind_eq_some_iff.mp hb
  exact ⟨_, _, x, y, rfl, hx, hy, (List.cons.inj (Option.some.inj hb)).1⟩

/-- **No byte of a URI is lost**: those of a row are read back. -/
theorem hexBytes_hexOf (bytes : List UInt8) : hexBytes (hexOf bytes) = some bytes := by
  unfold hexBytes hexOf
  rw [stripPrefix_append]
  show hexDecode (String.ofList _).toList = _
  rw [String.toList_ofList]
  induction bytes with
  | nil => rfl
  | cons b bytes ih =>
    obtain ⟨c, d, x, y, hb, hx, hy, rfl⟩ := exists_hexLower b
    rw [List.flatMap_cons, hb]
    show hexDecode (c :: d :: bytes.flatMap hexLower) = _
    rw [hexDecode, hx, hy, ih]
    rfl

/-- **A URI has a text exactly if its bytes are one without a NUL**, which then is the text. -/
theorem textOf_eq_some {bytes : List UInt8} {text : String} :
    textOf bytes = some text ↔ text.toUTF8 = ⟨bytes.toArray⟩ ∧ '\x00' ∉ text.toList := by
  unfold textOf String.fromUTF8?
  rw [Option.filter_eq_some_iff]
  refine and_congr ⟨fun h => ?_, fun h => ?_⟩ (by simp)
  · split at h
    · cases h
      rfl
    · cases h
  · rw [← h, String.toUTF8_eq_toByteArray, dif_pos text.isValidUTF8]
    rfl

end AtomContextDualProjection
