import IntuitionCore.Entities.Plan
import IntuitionCore.Library.Insertion

/-!
# The tables of atoms and triples

The table `term` of the legacy database has a row for each atom and triple; the
KG database has nodes, triples and predicates, the accounts that created them,
and a row for each event that did. Every row is inserted unless there is one of
its key already, so the inserts settle: a row of the plan that is inserted again
finds all its rows there.

The columns that record when a row was written are left out, except where they
hold the time of the block.
-/

/-- A row of `term`. -/
structure TermRow where
  termType : String
  creator : String
  atomData : Option String := none
  atomDataHex : Option String := none
  subjectId : Option String := none
  predicateId : Option String := none
  objectId : Option String := none
  blockNumber : ℕ
  blockTimestamp : ℤ
  transactionHash : String
  deriving DecidableEq, Repr

/-- The columns of `kg.nodes` that the workers of the KG database process a node
by. -/
structure NodeProcessing where
  parseAttempts : ℕ := 0
  parseStatus : String := "pending"
  classificationAttempts : ℕ := 0
  classificationStatus : String := "pending"
  enrichmentAttempts : ℕ := 0
  enrichmentStatus : String := "pending"
  processingMeta : JsonObject := ∅

/-- A row of `kg.nodes`, with the defaults of its columns. -/
structure NodeRow where
  isOnchain : Bool := false
  status : String := "active"
  visibility : String := "public"
  createdBy : Option String := none
  rawType : String
  classificationType : String := "Unknown"
  data : Option String := none
  dataHex : Option String := none
  dataResolved : JsonObject := ∅
  processing : NodeProcessing := {}
  searchText : String := ""
  createdAt : ℤ
  updatedAt : ℤ

/-- A row of `kg.predicates`, with the defaults of its columns. -/
structure PredicateRow where
  slug : String
  label : String
  description : Option String := none
  inversePredicateId : Option String := none
  isTransitive : Bool := false
  isSymmetric : Bool := false
  isHierarchical : Bool := false
  isSocial : Bool := false
  isMarket : Bool := false
  metadata : JsonObject := ∅

/-- A row of `kg.triples`, with the defaults of its columns. -/
structure TripleRow where
  isOnchain : Bool := false
  status : String := "active"
  visibility : String := "public"
  createdBy : Option String := none
  subjectId : String
  subjectType : String := "node"
  predicateId : String
  predicateType : String := "node"
  objectId : String
  objectType : String := "node"
  isCounterTriple : Bool := false
  siblingTripleId : Option String := none
  edgeKind : String := "claim"
  source : Option String := none
  sourceUri : Option String := none
  confidence : Option ℚ := none
  inferred : Bool := false
  provenance : JsonObject := ∅
  metadata : JsonObject := ∅
  createdAt : ℤ
  updatedAt : ℤ

/-- A row of `kg.events`. -/
structure KgEventRow where
  actorId : Option String := none
  entityKind : String
  entityId : String
  eventType : String
  classificationType : Option String := none
  isOnchain : Bool := false
  blockNumber : Option ℕ := none
  txHash : Option String := none
  payload : JsonObject := ∅

/-- The tables of the KG database that atoms and triples are written to. Of an
account only the id is kept. -/
structure KgGraph where
  accounts : Finset String := ∅
  nodes : Table String NodeRow := ∅
  predicates : Table String PredicateRow := ∅
  triples : Table String TripleRow := ∅
  /-- The primary key is the time of the event and its id. -/
  events : Table (ℤ × String) KgEventRow := ∅

/-! ## The table `term` -/

namespace CoreEntitiesProjection

/-- The row of `term` of an atom. -/
def atomTerm (creator atomDataHex : String) (blockNumber : ℕ) (blockTimestamp : ℤ)
    (transactionHash : String) : TermRow where
  termType := "atom"
  creator := creator
  atomData := decodeAtomDataHex atomDataHex
  atomDataHex := some atomDataHex
  blockNumber := blockNumber
  blockTimestamp := blockTimestamp
  transactionHash := transactionHash

/-- The row of `term` of a triple. -/
def tripleTerm (creator subjectId predicateId objectId : String) (blockNumber : ℕ)
    (blockTimestamp : ℤ) (transactionHash : String) : TermRow where
  termType := "triple"
  creator := creator
  subjectId := some subjectId
  predicateId := some predicateId
  objectId := some objectId
  blockNumber := blockNumber
  blockTimestamp := blockTimestamp
  transactionHash := transactionHash

def insertAtomTermPgRaw (tx : Table String TermRow) (termId creator atomDataHex : String)
    (blockNumber : ℕ) (blockTimestamp : ℤ) (transactionHash : String) : Table String TermRow :=
  tx.insertIfAbsent termId
    (atomTerm creator atomDataHex blockNumber blockTimestamp transactionHash)

def insertTripleTermPgRaw (tx : Table String TermRow)
    (termId creator subjectId predicateId objectId : String) (blockNumber : ℕ)
    (blockTimestamp : ℤ) (transactionHash : String) : Table String TermRow :=
  tx.insertIfAbsent termId
    (tripleTerm creator subjectId predicateId objectId blockNumber blockTimestamp
      transactionHash)

/-- Insert the row of `term` of a row of the plan. -/
def insertTermPg (tx : Table String TermRow) : PgTermRow → Table String TermRow
  | .atom metadata data =>
    insertAtomTermPgRaw tx data.termId data.creator data.atomData metadata.blockNumber
      metadata.blockTimestamp metadata.transactionHash
  | .triple metadata data =>
    insertTripleTermPgRaw tx data.termId data.creator data.subjectId data.predicateId
      data.objectId metadata.blockNumber metadata.blockTimestamp metadata.transactionHash
  | .atomRaw raw creator termId atomDataHex =>
    insertAtomTermPgRaw tx termId creator atomDataHex raw.blockNumber raw.blockTimestamp
      raw.transactionHash
  | .tripleRaw raw creator termId subjectId predicateId objectId =>
    insertTripleTermPgRaw tx termId creator subjectId predicateId objectId raw.blockNumber
      raw.blockTimestamp raw.transactionHash

/-- Insert the rows of a plan in one transaction. -/
def commitPgTransaction (term : Table String TermRow) (pgPlan : List PgTermRow) :
    Table String TermRow :=
  pgPlan.foldl insertTermPg term

/-! ## The KG database -/

/-- The row of `kg.nodes` of an atom of the chain. -/
def chainNode (creator atomData atomDataHex : String) (blockTimestamp : ℤ) : NodeRow where
  isOnchain := true
  status := "active"
  visibility := "public"
  createdBy := some creator
  rawType := "string"
  classificationType := "Unknown"
  data := some atomData
  dataHex := some atomDataHex
  createdAt := blockTimestamp
  updatedAt := blockTimestamp

/-- The row of `kg.predicates` of a predicate that is only known by its id. -/
def chainPredicate (predicateId : String) : PredicateRow where
  slug := predicateId
  label := predicateId

/-- The row of `kg.triples` of a triple of the chain. The insert names no
`is_onchain`. -/
def chainTriple (creator subjectId predicateId objectId : String) (isCounter : Bool)
    (siblingTripleId : Option String) (blockNumber : ℕ) (txHash : String)
    (blockTimestamp : ℤ) : TripleRow where
  status := "active"
  visibility := "public"
  createdBy := some creator
  subjectId := subjectId
  subjectType := "node"
  predicateId := predicateId
  predicateType := "node"
  objectId := objectId
  objectType := "node"
  siblingTripleId := siblingTripleId
  isCounterTriple := isCounter
  edgeKind := "claim"
  source := some "onchain"
  provenance := .ofFields [("block_number", .number blockNumber), ("tx_hash", .string txHash)]
  createdAt := blockTimestamp
  updatedAt := blockTimestamp

/-- The id of the row of `kg.events` of a log. -/
def kgEventId (txHash : String) (logIndex : ℕ) : String := s!"{txHash}:{logIndex}"

/-- The row of `kg.events` of the creation of a node or of a triple. -/
def createdEvent (entityKind creator entityId : String) (blockNumber : ℕ) (txHash : String) :
    KgEventRow where
  actorId := some creator
  entityKind := entityKind
  entityId := entityId
  eventType := "created"
  classificationType := some "Unknown"
  isOnchain := true
  blockNumber := some blockNumber
  txHash := some txHash

def upsertKgAccount (tx : KgGraph) (accountId : String) : KgGraph :=
  { tx with accounts := insert accountId tx.accounts }

def insertKgNodeAtom (tx : KgGraph) (termId creator atomData atomDataHex : String)
    (blockTimestamp : ℤ) : KgGraph :=
  { tx with
    nodes := tx.nodes.insertIfAbsent termId
      (chainNode creator atomData atomDataHex blockTimestamp) }

def insertKgEventAtomCreated (tx : KgGraph) (creator termId : String) (blockNumber : ℕ)
    (txHash : String) (logIndex : ℕ) (blockTimestamp : ℤ) : KgGraph :=
  { tx with
    events := tx.events.insertIfAbsent (blockTimestamp, kgEventId txHash logIndex)
      (createdEvent "node" creator termId blockNumber txHash) }

/-- Insert a predicate unless it is there. The insert fails if its slug is
another predicate's. -/
def upsertKgPredicateLazy (tx : KgGraph) (predicateId : String) : Option KgGraph :=
  if tx.predicates.lookup predicateId = none
      ∧ tx.predicates.count (fun _ row => row.slug = predicateId) ≠ 0 then
    none
  else
    some { tx with
      predicates := tx.predicates.insertIfAbsent predicateId (chainPredicate predicateId) }

def insertKgTriple (tx : KgGraph) (tripleId creator subjectId predicateId objectId : String)
    (isCounter : Bool) (siblingTripleId : Option String) (blockNumber : ℕ) (txHash : String)
    (blockTimestamp : ℤ) : KgGraph :=
  { tx with
    triples := tx.triples.insertIfAbsent tripleId
      (chainTriple creator subjectId predicateId objectId isCounter siblingTripleId blockNumber
        txHash blockTimestamp) }

def insertKgEventTripleCreated (tx : KgGraph) (creator tripleId : String) (blockNumber : ℕ)
    (txHash : String) (logIndex : ℕ) (blockTimestamp : ℤ) : KgGraph :=
  { tx with
    events := tx.events.insertIfAbsent (blockTimestamp, kgEventId txHash logIndex)
      (createdEvent "triple" creator tripleId blockNumber txHash) }

def applyAtomRow (tx : KgGraph) (creator termId atomData atomDataHex : String)
    (blockNumber : ℕ) (txHash : String) (logIndex : ℕ) (blockTimestamp : ℤ) : KgGraph :=
  let tx := upsertKgAccount tx creator
  let tx := insertKgNodeAtom tx termId creator atomData atomDataHex blockTimestamp
  insertKgEventAtomCreated tx creator termId blockNumber txHash logIndex blockTimestamp

def applyTripleRow (tx : KgGraph) (creator tripleId subjectId predicateId objectId : String)
    (blockNumber : ℕ) (txHash : String) (logIndex : ℕ) (blockTimestamp : ℤ) :
    Option KgGraph := do
  let tx := upsertKgAccount tx creator
  let tx ← upsertKgPredicateLazy tx predicateId
  let tx := insertKgTriple tx tripleId creator subjectId predicateId objectId false none
    blockNumber txHash blockTimestamp
  return insertKgEventTripleCreated tx creator tripleId blockNumber txHash logIndex
    blockTimestamp

/-- Apply a row of the plan. -/
def applyKgRow (tx : KgGraph) : PgTermRow → Option KgGraph
  | .atom metadata data =>
    some (applyAtomRow tx data.creator data.termId (displayData data.atomData) data.atomData
      metadata.blockNumber metadata.transactionHash metadata.logIndex metadata.blockTimestamp)
  | .atomRaw raw creator termId atomDataHex =>
    some (applyAtomRow tx creator termId (displayData atomDataHex) atomDataHex raw.blockNumber
      raw.transactionHash raw.logIndex raw.blockTimestamp)
  | .triple metadata data =>
    applyTripleRow tx data.creator data.termId data.subjectId data.predicateId data.objectId
      metadata.blockNumber metadata.transactionHash metadata.logIndex metadata.blockTimestamp
  | .tripleRaw raw creator termId subjectId predicateId objectId =>
    applyTripleRow tx creator termId subjectId predicateId objectId raw.blockNumber
      raw.transactionHash raw.logIndex raw.blockTimestamp

/-- Apply the rows of a plan in one transaction. -/
def writeKgBatch (kg : KgGraph) (pgPlan : List PgTermRow) : Option KgGraph :=
  pgPlan.foldlM applyKgRow kg

end CoreEntitiesProjection

/-! ## What a row of the plan inserts -/

namespace PgTermRow

open CoreEntitiesProjection

/-- The account that created what a row is about. -/
def creator : PgTermRow → String
  | atom _ data => data.creator
  | triple _ data => data.creator
  | atomRaw _ creator _ _ => creator
  | tripleRaw _ creator _ _ _ _ => creator

/-- The term a row is about. -/
def termId : PgTermRow → String
  | atom _ data => data.termId
  | triple _ data => data.termId
  | atomRaw _ _ termId _ => termId
  | tripleRaw _ _ termId _ _ _ => termId

/-- The row of `term`. -/
def termRow : PgTermRow → TermRow
  | atom metadata data =>
    atomTerm data.creator data.atomData metadata.blockNumber metadata.blockTimestamp
      metadata.transactionHash
  | triple metadata data =>
    tripleTerm data.creator data.subjectId data.predicateId data.objectId metadata.blockNumber
      metadata.blockTimestamp metadata.transactionHash
  | atomRaw raw creator _ atomDataHex =>
    atomTerm creator atomDataHex raw.blockNumber raw.blockTimestamp raw.transactionHash
  | tripleRaw raw creator _ subjectId predicateId objectId =>
    tripleTerm creator subjectId predicateId objectId raw.blockNumber raw.blockTimestamp
      raw.transactionHash

/-- The row of `kg.nodes`, of an atom. -/
def node? : PgTermRow → Option NodeRow
  | atom metadata data =>
    some (chainNode data.creator (displayData data.atomData) data.atomData
      metadata.blockTimestamp)
  | atomRaw raw creator _ atomDataHex =>
    some (chainNode creator (displayData atomDataHex) atomDataHex raw.blockTimestamp)
  | _ => none

/-- The predicate, of a triple. -/
def predicateId? : PgTermRow → Option String
  | triple _ data => some data.predicateId
  | tripleRaw _ _ _ _ predicateId _ => some predicateId
  | _ => none

/-- The row of `kg.triples`, of a triple. -/
def triple? : PgTermRow → Option TripleRow
  | triple metadata data =>
    some (chainTriple data.creator data.subjectId data.predicateId data.objectId false none
      metadata.blockNumber metadata.transactionHash metadata.blockTimestamp)
  | tripleRaw raw creator _ subjectId predicateId objectId =>
    some (chainTriple creator subjectId predicateId objectId false none raw.blockNumber
      raw.transactionHash raw.blockTimestamp)
  | _ => none

/-- The key of the row of `kg.events`. -/
def eventKey : PgTermRow → ℤ × String
  | atom metadata _ | triple metadata _ =>
    (metadata.blockTimestamp, kgEventId metadata.transactionHash metadata.logIndex)
  | atomRaw raw _ _ _ | tripleRaw raw _ _ _ _ _ =>
    (raw.blockTimestamp, kgEventId raw.transactionHash raw.logIndex)

/-- The row of `kg.events`. -/
def event : PgTermRow → KgEventRow
  | atom metadata data =>
    createdEvent "node" data.creator data.termId metadata.blockNumber metadata.transactionHash
  | triple metadata data =>
    createdEvent "triple" data.creator data.termId metadata.blockNumber metadata.transactionHash
  | atomRaw raw creator termId _ =>
    createdEvent "node" creator termId raw.blockNumber raw.transactionHash
  | tripleRaw raw creator termId _ _ _ =>
    createdEvent "triple" creator termId raw.blockNumber raw.transactionHash

end PgTermRow

namespace CoreEntitiesProjection

/-- Insert all rows of the KG database that a row of the plan asks for, each
unless it is there. -/
def insertKgRow (kg : KgGraph) (row : PgTermRow) : KgGraph where
  accounts := insert row.creator kg.accounts
  nodes := kg.nodes.insertEntry (row.node?.map fun node => (row.termId, node))
  predicates := kg.predicates.insertEntry (row.predicateId?.map fun p => (p, chainPredicate p))
  triples := kg.triples.insertEntry (row.triple?.map fun triple => (row.termId, triple))
  events := kg.events.insertEntry (some (row.eventKey, row.event))

theorem insertTermPg_eq (term : Table String TermRow) (row : PgTermRow) :
    insertTermPg term row = term.insertEntry (some (row.termId, row.termRow)) := by
  cases row <;> rfl

/-- Applying the row of a triple inserts its rows. -/
theorem applyTripleRow_eq_some {kg kg' : KgGraph}
    {creator tripleId subjectId predicateId objectId : String} {blockNumber : ℕ} {txHash : String}
    {logIndex : ℕ} {blockTimestamp : ℤ}
    (h : applyTripleRow kg creator tripleId subjectId predicateId objectId blockNumber txHash
      logIndex blockTimestamp = some kg') :
    kg' = {
      accounts := insert creator kg.accounts
      nodes := kg.nodes
      predicates := kg.predicates.insertIfAbsent predicateId (chainPredicate predicateId)
      triples := kg.triples.insertIfAbsent tripleId (chainTriple creator subjectId predicateId
        objectId false none blockNumber txHash blockTimestamp)
      events := kg.events.insertIfAbsent (blockTimestamp, kgEventId txHash logIndex)
        (createdEvent "triple" creator tripleId blockNumber txHash) } := by
  obtain ⟨tx, htx, h⟩ := Option.bind_eq_some_iff.mp h
  cases h
  unfold upsertKgPredicateLazy at htx
  split at htx <;> cases htx
  rfl

/-- **Applying a row of the plan inserts its rows.** -/
theorem applyKgRow_eq_some {kg kg' : KgGraph} {row : PgTermRow}
    (h : applyKgRow kg row = some kg') : kg' = insertKgRow kg row := by
  cases row with
  | atom metadata data | atomRaw raw creator termId atomDataHex =>
    cases h
    rfl
  | triple metadata data | tripleRaw raw creator termId subjectId predicateId objectId =>
    exact applyTripleRow_eq_some h

/-- A plan is applied row by row. -/
theorem writeKgBatch_eq_some {kg kg' : KgGraph} {pgPlan : List PgTermRow}
    (h : writeKgBatch kg pgPlan = some kg') : kg' = pgPlan.foldl insertKgRow kg := by
  unfold writeKgBatch at h
  induction pgPlan generalizing kg with
  | nil => cases h; rfl
  | cons row pgPlan ih =>
    obtain ⟨kg₁, hkg₁, h⟩ := Option.bind_eq_some_iff.mp h
    rw [List.foldl_cons, ← applyKgRow_eq_some hkg₁]
    exact ih h

/-- **The inserts into `term` settle.** -/
theorem settles_insertTermPg : Settles insertTermPg := by
  rw [funext fun term => funext (insertTermPg_eq term)]
  exact Table.settles_insertEntry _

/-- **The inserts into the KG database settle.** -/
theorem settles_insertKgRow : Settles insertKgRow := by
  refine Settles.of_view
    (fun kg => (kg.accounts, kg.nodes, kg.predicates, kg.triples, kg.events)) (fun kg kg' h => ?_)
    ((Finset.settles_insert PgTermRow.creator).prod
      ((Table.settles_insertEntry fun row : PgTermRow =>
          row.node?.map fun node => (row.termId, node)).prod
        ((Table.settles_insertEntry fun row : PgTermRow =>
            row.predicateId?.map fun p => (p, chainPredicate p)).prod
          ((Table.settles_insertEntry fun row : PgTermRow =>
              row.triple?.map fun triple => (row.termId, triple)).prod
            (Table.settles_insertEntry fun row : PgTermRow =>
              some (row.eventKey, row.event)))))) fun kg row => rfl
  simp only [Prod.mk.injEq] at h
  obtain ⟨haccounts, hnodes, hpredicates, htriples, hevents⟩ := h
  cases kg
  cases kg'
  cases haccounts
  cases hnodes
  cases hpredicates
  cases htriples
  cases hevents
  rfl

end CoreEntitiesProjection
