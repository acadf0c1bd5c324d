import IntuitionCore.Projections.Worker
import IntuitionCore.Surreal.Flows

/-!
# What is written of an atom or a triple

The events that create atoms and triples are written to three stores: to
SurrealDB, to the table `term`, and to the tables of the KG database. A batch is
planned before anything is written: the plan has the operations on the graph,
and a row for each event.

An event whose payload does not read as the record of its type is not given up:
the planner looks for the fields it needs in the payload itself.
-/

/-! ## The data of an atom -/

/-- The number a hexadecimal digit stands for. -/
def hexDigit? (c : Char) : Option UInt8 :=
  if '0' ≤ c ∧ c ≤ '9' then some (.ofNat (c.toNat - '0'.toNat))
  else if 'a' ≤ c ∧ c ≤ 'f' then some (.ofNat (c.toNat - 'a'.toNat + 10))
  else if 'A' ≤ c ∧ c ≤ 'F' then some (.ofNat (c.toNat - 'A'.toNat + 10))
  else none

/-- The bytes that pairs of hexadecimal digits stand for. -/
def hexDecode : List Char → Option (List UInt8)
  | [] => some []
  | [_] => none
  | c :: d :: cs => do return ((← hexDigit? c) * 16 + (← hexDigit? d)) :: (← hexDecode cs)

/-- The bytes of a text: pairs of hexadecimal digits after `0x`. -/
def hexBytes (s : String) : Option (List UInt8) := do hexDecode (← stripPrefix "0x" s).toList

/-- The text an atom's data is, if it is one that PostgreSQL can hold. -/
def decodeAtomDataHex (atomDataHex : String) : Option String := do
  let normalizedHex := (stripPrefix "0x" atomDataHex).getD atomDataHex
  let decodedBytes ← hexDecode normalizedHex.toList
  let s ← String.fromUTF8? ⟨decodedBytes.toArray⟩
  if '\x00' ∈ s.toList then none else some s

/-- The text an atom is shown as: its data, or else the digits. -/
def displayData (atomDataHex : String) : String :=
  (decodeAtomDataHex atomDataHex).getD atomDataHex

section Plan

variable (fmt : SurrealFormats)

/-! ## Operations on the graph -/

namespace CoreEntitiesProjection

def buildAtomOpsRaw (creator termId atomDataHex : String) (ts : SinkValue) : List SinkOperation :=
  [.upsertNode ⟨"account", creator⟩
      [("address", .string creator), ("onchain", .bool true), ("updatedAt", ts)],
    .upsertNode ⟨"vault", termId⟩
      [("createdBy", .string creator), ("onchain", .bool true), ("updatedAt", ts)],
    .upsertNode ⟨"atom", termId⟩
      [("data", .string (displayData atomDataHex)), ("dataHex", .string atomDataHex),
        ("createdBy", .string creator), ("type", .string "default"), ("onchain", .bool true),
        ("updatedAt", ts), ("vault", .string termId)]]

def buildAtomOpsTyped (metadata : EventMetadata) (data : AtomCreatedRecord) :
    List SinkOperation :=
  buildAtomOpsRaw data.creator data.termId data.atomData
    (datetimeValue fmt metadata.blockTimestamp)

end CoreEntitiesProjection

def TripleProjection.buildRawTripleOps (creator termId subjectId predicateId objectId : String)
    (ts : SinkValue) : List SinkOperation :=
  [.upsertNode ⟨"account", creator⟩
      [("address", .string creator), ("onchain", .bool true), ("updatedAt", ts)],
    .upsertNode ⟨"vault", termId⟩
      [("createdBy", .string creator), ("onchain", .bool true), ("updatedAt", ts)],
    .reconcileTripleDraft ⟨"triple", termId⟩ subjectId predicateId objectId
      [("subject", .string subjectId), ("predicate", .string predicateId),
        ("object", .string objectId), ("createdBy", .string creator), ("onchain", .bool true),
        ("updatedAt", ts), ("vault", .string termId)]]

def CoreEntitiesProjection.buildTripleOpsTyped (metadata : EventMetadata)
    (data : TripleCreatedRecord) : List SinkOperation :=
  TripleProjection.buildRawTripleOps data.creator data.termId data.subjectId data.predicateId
    data.objectId (datetimeValue fmt metadata.blockTimestamp)

/-! ## Rows -/

/-- A row of the plan: which inserts an event asks for. -/
inductive PgTermRow where
  | atom (metadata : EventMetadata) (data : AtomCreatedRecord)
  | triple (metadata : EventMetadata) (data : TripleCreatedRecord)
  | atomRaw (raw : StoredEvent) (creator termId atomDataHex : String)
  | tripleRaw (raw : StoredEvent) (creator termId subjectId predicateId objectId : String)
  deriving DecidableEq, Repr

namespace CoreEntitiesProjection

def name : String := "core_entities"

def eventTypes : List EventType := [.atomCreated, .tripleCreated]

/-- The names of the types the projection consumes. -/
def eventTypeStrs : List String := eventTypes.map EventType.asStr

/-- Plan one event; the payload of an unknown event is looked up. -/
def planEvent (payload : StoredEvent → JsonObject) :
    ParsedEvent → Except ProjectionError (List SinkOperation × List PgTermRow)
  | .atomCreated metadata data => .ok (buildAtomOpsTyped fmt metadata data, [.atom metadata data])
  | .tripleCreated metadata data =>
    .ok (buildTripleOpsTyped fmt metadata data, [.triple metadata data])
  | .unknown raw =>
    if raw.eventType = "AtomCreated" then do
      let creator ← getStr (payload raw) "creator"
      let termId ← getStr (payload raw) "term_id"
      let atomDataHex ← getStr (payload raw) "atom_data"
      return (buildAtomOpsRaw creator termId atomDataHex (datetimeValue fmt raw.blockTimestamp),
        [.atomRaw raw creator termId atomDataHex])
    else if raw.eventType = "TripleCreated" then do
      let creator ← getStr (payload raw) "creator"
      let termId ← getStr (payload raw) "term_id"
      let subjectId ← getStr (payload raw) "subject_id"
      let predicateId ← getStr (payload raw) "predicate_id"
      let objectId ← getStr (payload raw) "object_id"
      return (TripleProjection.buildRawTripleOps creator termId subjectId predicateId objectId
          (datetimeValue fmt raw.blockTimestamp),
        [.tripleRaw raw creator termId subjectId predicateId objectId])
    else .ok ([], [])
  | _ => .ok ([], [])

/-- Plan the events of a batch from an index on. The plan of a batch with an
event that cannot be planned is the error, and the index of the event. -/
def buildWritePlanFrom (payload : StoredEvent → JsonObject) (idx : ℕ) :
    List ParsedEvent → Except (ProjectionError × ℕ) (List SinkOperation × List PgTermRow)
  | [] => .ok ([], [])
  | event :: events => do
    let (ops, rows) ← (planEvent fmt payload event).mapError fun err => (err, idx)
    let (surrealOps, pgPlan) ← buildWritePlanFrom payload (idx + 1) events
    return (ops ++ surrealOps, rows ++ pgPlan)

def buildWritePlan (payload : StoredEvent → JsonObject) (events : List ParsedEvent) :
    Except (ProjectionError × ℕ) (List SinkOperation × List PgTermRow) :=
  buildWritePlanFrom fmt payload 0 events

/-- The rows of a stored event. An event that cannot be planned has none. -/
def rowsOf (payload : StoredEvent → JsonObject) (e : StoredEvent) : List PgTermRow :=
  match planEvent fmt payload (ParsedEvent.parseOrUnknown e) with
  | .ok (_, rows) => rows
  | .error _ => []

variable {fmt} {payload : StoredEvent → JsonObject} {batch : List StoredEvent}
  {ops : List SinkOperation} {rows : List PgTermRow} {idx : ℕ}

/-- **The plan of a batch has the rows of its events**, each of which can be
planned. -/
theorem rows_of_buildWritePlanFrom
    (h : buildWritePlanFrom fmt payload idx (parseBatchOnce batch) = .ok (ops, rows)) :
    rows = batch.flatMap (rowsOf fmt payload)
      ∧ ∀ e ∈ batch, ∃ plan, planEvent fmt payload (ParsedEvent.parseOrUnknown e) = .ok plan := by
  induction batch generalizing idx ops rows with
  | nil =>
    cases h
    exact ⟨rfl, fun e he => absurd he List.not_mem_nil⟩
  | cons e batch ih =>
    obtain ⟨⟨ops₁, rows₁⟩, hplan, h⟩ := Result.bind_eq_ok.mp h
    obtain ⟨⟨ops₂, rows₂⟩, hrest, h⟩ := Result.bind_eq_ok.mp h
    cases h
    have hplan' := Result.mapError_eq_ok.mp hplan
    obtain ⟨hrows, hall⟩ := ih hrest
    refine ⟨?_, List.forall_mem_cons.mpr ⟨⟨_, hplan'⟩, hall⟩⟩
    have hrows₁ : rowsOf fmt payload e = rows₁ := by
      unfold rowsOf
      rw [hplan']
    rw [List.flatMap_cons, hrows₁, hrows]

end CoreEntitiesProjection

end Plan
