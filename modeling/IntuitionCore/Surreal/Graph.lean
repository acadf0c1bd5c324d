import IntuitionCore.Entities.Plan
import IntuitionCore.Library.SharedCells
import IntuitionCore.Surreal.Drafts
import IntuitionCore.Surreal.Tallies

/-!
# The graph and its six workers

Six projections write the graph in SurrealDB, each with a worker of its own: those of atoms,
triples, deposits, redemptions, prices and fees. Their operations set fields of nodes, draw
edges, and add to the tallies that deposits and redemptions keep.

Everything but the tallies is overwritten and never added to: a *place* of the graph, that is
a field of a node or an edge, is after an operation what the operation writes there, or what
it was. Which projections write a place can be told from its table and the name of its field.

The triples that clients draft are not modelled here: none of the six projections makes a
draft, so in a graph that they alone write there is none to be replaced.
-/

/-! ## Operations -/

section Projections

variable (fmt : SurrealFormats)

namespace AtomProjection

def buildRawAtomOps (creator termId atomDataHex displayData : String) (ts : SinkValue) :
    List SinkOperation :=
  [.upsertNode ⟨"account", creator⟩
      [("address", .string creator), ("onchain", .bool true), ("updatedAt", ts)],
    .upsertNode ⟨"vault", termId⟩
      [("createdBy", .string creator), ("onchain", .bool true), ("updatedAt", ts)],
    .upsertNode ⟨"atom", termId⟩
      [("data", .string displayData), ("dataHex", .string atomDataHex),
        ("createdBy", .string creator), ("type", .string "default"), ("onchain", .bool true),
        ("updatedAt", ts), ("vault", .string termId)]]

def buildAtomOps (metadata : EventMetadata) (data : AtomCreatedRecord) : List SinkOperation :=
  buildRawAtomOps data.creator data.termId data.atomData (displayData data.atomData)
    (datetimeValue fmt metadata.blockTimestamp)

/-- The operations of an event; the payload of an unknown event is looked up. -/
def projectParsed (payload : StoredEvent → JsonObject) :
    ParsedEvent → Except ProjectionError (List SinkOperation)
  | .atomCreated metadata data => .ok (buildAtomOps fmt metadata data)
  | .unknown raw =>
    if raw.eventType = "AtomCreated" then do
      let creator ← getStr (payload raw) "creator"
      let termId ← getStr (payload raw) "term_id"
      let atomDataHex ← getStr (payload raw) "atom_data"
      return buildRawAtomOps creator termId atomDataHex (displayData atomDataHex)
        (datetimeValue fmt raw.blockTimestamp)
    else .ok []
  | _ => .ok []

end AtomProjection

namespace TripleProjection

def buildTripleOps (metadata : EventMetadata) (data : TripleCreatedRecord) :
    List SinkOperation :=
  buildRawTripleOps data.creator data.termId data.subjectId data.predicateId data.objectId
    (datetimeValue fmt metadata.blockTimestamp)

def projectParsed (payload : StoredEvent → JsonObject) :
    ParsedEvent → Except ProjectionError (List SinkOperation)
  | .tripleCreated metadata data => .ok (buildTripleOps fmt metadata data)
  | .unknown raw =>
    if raw.eventType = "TripleCreated" then do
      let creator ← getStr (payload raw) "creator"
      let termId ← getStr (payload raw) "term_id"
      let subjectId ← getStr (payload raw) "subject_id"
      let predicateId ← getStr (payload raw) "predicate_id"
      let objectId ← getStr (payload raw) "object_id"
      return buildRawTripleOps creator termId subjectId predicateId objectId
        (datetimeValue fmt raw.blockTimestamp)
    else .ok []
  | _ => .ok []

end TripleProjection

namespace PriceProjection

/-- The price of a vault; it is that of a term, whichever of its curves it is of. -/
def buildVaultPriceOp (termId sharePrice : String) : SinkOperation :=
  .upsertNode ⟨"vault", termId⟩ [("price", .string sharePrice)]

def buildPriceOps (data : SharePriceChangedRecord) : List SinkOperation :=
  [buildVaultPriceOp data.termId (fmt.toString data.sharePrice)]

def projectParsed (payload : StoredEvent → JsonObject) :
    ParsedEvent → Except ProjectionError (List SinkOperation)
  | .sharePriceChanged _ data => .ok (buildPriceOps fmt data)
  | .unknown raw =>
    if raw.eventType = "SharePriceChanged" then do
      let termId ← getStr (payload raw) "term_id"
      let sharePrice ← getStr (payload raw) "share_price"
      return [buildVaultPriceOp termId sharePrice]
    else .ok []
  | _ => .ok []

end PriceProjection

namespace FeeProjection

def buildAccountOp (sender : String) : SinkOperation :=
  .upsertNode ⟨"account", sender⟩ [("address", .string sender)]

def buildFeeOps (data : ProtocolFeeAccruedRecord) : List SinkOperation :=
  [buildAccountOp data.sender]

def projectParsed (payload : StoredEvent → JsonObject) :
    ParsedEvent → Except ProjectionError (List SinkOperation)
  | .protocolFeeAccrued _ data => .ok (buildFeeOps data)
  | .unknown raw =>
    if raw.eventType = "ProtocolFeeAccrued" then do
      let sender ← getStr (payload raw) "sender"
      return [buildAccountOp sender]
    else .ok []
  | _ => .ok []

end FeeProjection

/-! ## Projections -/

/-- The projections that write the graph. -/
inductive GraphWriter where
  | atom
  | triple
  | deposit
  | redeem
  | price
  | fee
  deriving DecidableEq, Repr

namespace GraphWriter

/-- All of them. -/
def allProjections : List GraphWriter := [atom, triple, deposit, redeem, price, fee]

def name : GraphWriter → String
  | atom => "atom"
  | triple => "triple"
  | deposit => "deposit"
  | redeem => "redeem"
  | price => "price"
  | fee => "fee"

def eventTypes : GraphWriter → List EventType
  | atom => [.atomCreated]
  | triple => [.tripleCreated]
  | deposit => [.deposited]
  | redeem => [.redeemed]
  | price => [.sharePriceChanged]
  | fee => [.protocolFeeAccrued]

/-- The names of the types a projection consumes. -/
def eventTypeStrs (p : GraphWriter) : List String := p.eventTypes.map EventType.asStr

/-- The operations a projection makes of an event. -/
def projectParsed (payload : StoredEvent → JsonObject) :
    GraphWriter → ParsedEvent → Except ProjectionError (List SinkOperation)
  | atom => AtomProjection.projectParsed fmt payload
  | triple => TripleProjection.projectParsed fmt payload
  | deposit => SurrealProjection.deposit.projectParsed fmt payload
  | redeem => SurrealProjection.redeem.projectParsed fmt payload
  | price => PriceProjection.projectParsed fmt payload
  | fee => FeeProjection.projectParsed payload

/-- The operations of a stored event. An event that cannot be projected has none. -/
def operations (payload : StoredEvent → JsonObject) (p : GraphWriter) (e : StoredEvent) :
    List SinkOperation :=
  match p.projectParsed fmt payload (ParsedEvent.parseOrUnknown e) with
  | .ok ops => ops
  | .error _ => []

/-- The operations that a projection builds of the events of its type. -/
def Builds (ops : List SinkOperation) : GraphWriter → Prop
  | atom => ∃ creator termId atomDataHex display ts,
    ops = AtomProjection.buildRawAtomOps creator termId atomDataHex display ts
  | triple => ∃ creator termId subjectId predicateId objectId ts,
    ops = TripleProjection.buildRawTripleOps creator termId subjectId predicateId objectId ts
  | deposit => ∃ sender receiver termId curveId assets shares block ts tx log,
    ops = DepositProjection.buildDepositOpsInner fmt sender receiver termId curveId assets shares
      block ts tx log
  | redeem => ∃ sender termId curveId assets negAssets negShares block ts tx log,
    ops = RedeemProjection.buildRedeemOpsInner fmt sender termId curveId assets negAssets
      negShares block ts tx log
  | price => ∃ termId sharePrice, ops = [PriceProjection.buildVaultPriceOp termId sharePrice]
  | fee => ∃ sender, ops = [FeeProjection.buildAccountOp sender]

variable {fmt} {payload : StoredEvent → JsonObject} {p q : GraphWriter} {event : ParsedEvent}
  {e : StoredEvent} {ops : List SinkOperation} {op : SinkOperation}

/-- What is made of an event that did not parse: nothing, or what is made of its payload. -/
theorem ops_of_raw {c : Prop} [Decidable c] {x : Except ProjectionError (List SinkOperation)}
    (h : (if c then x else .ok []) = .ok ops) : ops = [] ∨ x = .ok ops := by
  by_cases hc : c
  · exact .inr ((if_pos hc).symm.trans h)
  · exact .inl (Except.ok.inj ((if_neg hc).symm.trans h)).symm

/-- What is projected of an event: nothing, or what is built of one of the type. -/
theorem builds_of_projectParsed (h : p.projectParsed fmt payload event = .ok ops) :
    ops = [] ∨ p.Builds fmt ops := by
  have hnil : ∀ {ops : List SinkOperation}, (Except.ok [] : Except ProjectionError _) = .ok ops →
      ops = [] ∨ p.Builds fmt ops := fun h => .inl (Except.ok.inj h).symm
  cases p with
  | atom =>
    cases event with
    | atomCreated metadata data =>
      cases h
      exact .inr ⟨_, _, _, _, _, rfl⟩
    | unknown raw =>
      refine (ops_of_raw h).imp_right fun h => ?_
      simp only [Result.bind_eq_ok] at h
      obtain ⟨_, -, _, -, _, -, hops⟩ := h
      cases hops
      exact ⟨_, _, _, _, _, rfl⟩
    | _ => exact hnil h
  | triple =>
    cases event with
    | tripleCreated metadata data =>
      cases h
      exact .inr ⟨_, _, _, _, _, _, rfl⟩
    | unknown raw =>
      refine (ops_of_raw h).imp_right fun h => ?_
      simp only [Result.bind_eq_ok] at h
      obtain ⟨_, -, _, -, _, -, _, -, _, -, hops⟩ := h
      cases hops
      exact ⟨_, _, _, _, _, _, rfl⟩
    | _ => exact hnil h
  | deposit =>
    cases event with
    | deposited metadata data =>
      cases h
      exact .inr ⟨_, _, _, _, _, _, _, _, _, _, rfl⟩
    | unknown raw =>
      refine (ops_of_raw h).imp_right fun h => ?_
      simp only [DepositProjection.buildDepositOpsRaw, Result.bind_eq_ok] at h
      obtain ⟨_, -, _, -, _, -, _, -, _, -, _, -, _, -, _, -, hops⟩ := h
      cases hops
      exact ⟨_, _, _, _, _, _, _, _, _, _, rfl⟩
    | _ => exact hnil h
  | redeem =>
    cases event with
    | redeemed metadata data =>
      cases h
      exact .inr ⟨_, _, _, _, _, _, _, _, _, _, rfl⟩
    | unknown raw =>
      refine (ops_of_raw h).imp_right fun h => ?_
      simp only [RedeemProjection.buildRedeemOpsRaw, Result.bind_eq_ok] at h
      obtain ⟨_, -, _, -, _, -, _, -, _, -, _, -, _, -, hops⟩ := h
      cases hops
      exact ⟨_, _, _, _, _, _, _, _, _, _, rfl⟩
    | _ => exact hnil h
  | price =>
    cases event with
    | sharePriceChanged metadata data =>
      cases h
      exact .inr ⟨_, _, rfl⟩
    | unknown raw =>
      refine (ops_of_raw h).imp_right fun h => ?_
      simp only [Result.bind_eq_ok] at h
      obtain ⟨_, -, _, -, hops⟩ := h
      cases hops
      exact ⟨_, _, rfl⟩
    | _ => exact hnil h
  | fee =>
    cases event with
    | protocolFeeAccrued metadata data =>
      cases h
      exact .inr ⟨_, rfl⟩
    | unknown raw =>
      refine (ops_of_raw h).imp_right fun h => ?_
      simp only [Result.bind_eq_ok] at h
      obtain ⟨_, -, hops⟩ := h
      cases hops
      exact ⟨_, rfl⟩
    | _ => exact hnil h

/-- The operations of a stored event: none, or those built of an event of the type. -/
theorem builds_operations (p : GraphWriter) (e : StoredEvent) :
    p.operations fmt payload e = [] ∨ p.Builds fmt (p.operations fmt payload e) := by
  unfold operations
  cases h : p.projectParsed fmt payload (ParsedEvent.parseOrUnknown e) with
  | ok ops => exact builds_of_projectParsed h
  | error err => exact .inl rfl

/-- The fields that a projection sets of a node, for each of the tables of its nodes. -/
def nodeFields : GraphWriter → List (String × List String)
  | atom => [("account", ["address", "onchain", "updatedAt"]),
    ("vault", ["createdBy", "onchain", "updatedAt"]),
    ("atom", ["data", "dataHex", "createdBy", "type", "onchain", "updatedAt", "vault"])]
  | triple => [("account", ["address", "onchain", "updatedAt"]),
    ("vault", ["createdBy", "onchain", "updatedAt"]),
    ("triple", ["subject", "predicate", "object", "createdBy", "onchain", "updatedAt", "vault"])]
  | deposit | redeem => [("account", ["address"]), ("position", ["account", "vault"])]
  | price => [("vault", ["price"])]
  | fee => [("account", ["address"])]

/-- The table of the edges that a projection draws. -/
def edgeTable? : GraphWriter → Option String
  | deposit => some "deposit"
  | redeem => some "withdraw"
  | _ => none

/-- The operations that a projection issues, by the fields and the edges they write; what is
added to are tallies. -/
def Issues (p : GraphWriter) : SinkOperation → Prop
  | .upsertNode id fields => (id.table, fields.map Prod.fst) ∈ p.nodeFields
  | .reconcileTripleDraft id _ _ _ fields => (id.table, fields.map Prod.fst) ∈ p.nodeFields
  | .upsertEdge _ edgeTable _ _ _ => p.edgeTable? = some edgeTable
  | .incrementFields id increments =>
    increments ≠ [] ∧ ∀ x ∈ increments, ∃ t : TallyId, t.field = (id, x.1)

/-- **A projection issues such operations only.** -/
theorem issues_of_mem (h : op ∈ p.operations fmt payload e) : p.Issues op := by
  obtain hnil | hbuilds := @builds_operations fmt payload p e
  · rw [hnil] at h
    cases h
  · revert op
    cases p with
    | atom =>
      obtain ⟨creator, termId, hex, display, ts, hops⟩ := hbuilds
      rw [hops]
      simp [AtomProjection.buildRawAtomOps, Issues, nodeFields]
    | triple =>
      obtain ⟨creator, termId, subjectId, predicateId, objectId, ts, hops⟩ := hbuilds
      rw [hops]
      simp [TripleProjection.buildRawTripleOps, Issues, nodeFields]
    | deposit =>
      obtain ⟨sender, receiver, termId, curveId, assets, shares, block, ts, tx, log, hops⟩ :=
        hbuilds
      rw [hops]
      simp only [DepositProjection.buildDepositOpsInner, List.forall_mem_cons, Issues, nodeFields]
      refine ⟨by simp, ⟨by simp, ⟨.accountDeposited sender, rfl⟩, ⟨.accountNet sender, rfl⟩,
        List.forall_mem_nil _⟩, rfl, by simp,
        ⟨by simp, ⟨.positionAmount _, rfl⟩, List.forall_mem_nil _⟩,
        ⟨by simp, ⟨.vaultDeposited termId, rfl⟩, List.forall_mem_nil _⟩, List.forall_mem_nil _⟩
    | redeem =>
      obtain ⟨sender, termId, curveId, assets, negAssets, negShares, block, ts, tx, log, hops⟩ :=
        hbuilds
      rw [hops]
      simp only [RedeemProjection.buildRedeemOpsInner, List.forall_mem_cons, Issues, nodeFields]
      refine ⟨by simp, ⟨by simp, ⟨.accountWithdrawn sender, rfl⟩, ⟨.accountNet sender, rfl⟩,
        List.forall_mem_nil _⟩, rfl, by simp,
        ⟨by simp, ⟨.positionAmount _, rfl⟩, List.forall_mem_nil _⟩,
        ⟨by simp, ⟨.vaultDeposited termId, rfl⟩, List.forall_mem_nil _⟩, List.forall_mem_nil _⟩
    | price =>
      obtain ⟨termId, sharePrice, hops⟩ := hbuilds
      rw [hops]
      simp [PriceProjection.buildVaultPriceOp, Issues, nodeFields]
    | fee =>
      obtain ⟨sender, hops⟩ := hbuilds
      rw [hops]
      simp [FeeProjection.buildAccountOp, Issues, nodeFields]

end GraphWriter

/-! ## Places -/

/-- A place of the graph: a field of a node, or an edge. -/
inductive GraphPlace where
  | field (key : RecordId × String)
  | edge (id : EdgeId)
  deriving DecidableEq, Repr

/-- What is at a place. -/
abbrev GraphValue := SurrealValue ⊕ EdgeRow

/-- What a graph has at a place. -/
def SurrealDb.get (db : SurrealDb) : GraphPlace → Option GraphValue
  | .field key => (db.fields.lookup key).map .inl
  | .edge id => (db.edges.lookup id).map .inr

/-- No record says who drafted it. -/
def SurrealDb.NoDrafts (db : SurrealDb) : Prop :=
  ∀ id, db.fields.lookup (id, "draftedBy") = none

/-- A place that is no tally. -/
def GraphPlace.Overwritten (place : GraphPlace) : Prop :=
  ∀ t : TallyId, place ≠ .field t.field

/-- What fields that are given to a node write at a place. -/
def writtenFields (id : RecordId) (fields : List (String × SinkValue)) :
    GraphPlace → Option GraphValue
  | .field key =>
    if key.1 = id then
      (((SurrealSink.nodeValues fmt id.table fields).getD []).reverse.lookup key.2).map .inl
    else none
  | .edge _ => none

/-- Fit the fields of an edge, and write them. -/
def edgeValues (edgeTable : String) (fields : List (String × SinkValue)) :
    Option (List (String × SurrealValue)) :=
  fields.mapM fun field => do
    return (field.1, ← valueToSurql fmt (normalizeEdgeField edgeTable field.1 field.2))

/-- What an operation writes at a place. -/
def SinkOperation.written (place : GraphPlace) : SinkOperation → Option GraphValue
  | upsertNode id fields => writtenFields fmt id fields place
  | reconcileTripleDraft id _ _ _ fields => writtenFields fmt id fields place
  | upsertEdge source edgeTable target idSuffix fields =>
    if place = .edge ⟨edgeTable, source.id, target.id, idSuffix⟩ then
      (edgeValues fmt edgeTable fields).map fun values => .inr ⟨source, target, values⟩
    else none
  | incrementFields _ _ => none

/-- Whether a projection may write a place, by its table and the name of its field. -/
def GraphWriter.mayWrite (p : GraphWriter) : GraphPlace → Bool
  | .field key => p.nodeFields.any fun f => f.1 = key.1.table && f.2.contains key.2
  | .edge id => p.edgeTable? = some id.edgeTable

/-- The projections that may write a place. -/
def GraphPlace.writers (place : GraphPlace) : List GraphWriter :=
  GraphWriter.allProjections.filter fun p => p.mayWrite place

variable {fmt} {payload : StoredEvent → JsonObject} {p q : GraphWriter}
  {e : StoredEvent} {ops : List SinkOperation} {op : SinkOperation} {place : GraphPlace}
  {db db' : SurrealDb} {id : RecordId} {fields : List (String × SinkValue)}
  {values : List (String × SurrealValue)}

/-- A graph without drafts has none of any triple. -/
theorem SurrealDb.NoDrafts.draftsOf_eq_nil (h : db.NoDrafts) (id : RecordId)
    (subject predicate object : String) :
    SurrealSink.draftsOf db id subject predicate object = [] := by
  refine List.eq_nil_iff_forall_not_mem.mpr fun other hother => ?_
  obtain ⟨-, -, -, -, hdraft⟩ := SurrealSink.mem_draftsOf.mp hother
  replace hdraft : (db.fields.lookup (⟨"triple", other⟩, "draftedBy")).any (· ≠ .noneValue) :=
    hdraft
  rw [h] at hdraft
  cases hdraft

/-- **Where there are no drafts, a triple is put in like any node.** -/
theorem SurrealDb.NoDrafts.reconcileTripleDraft (h : db.NoDrafts) (id : RecordId)
    (subject predicate object : String) (values : List (String × SurrealValue)) :
    SurrealSink.reconcileTripleDraft db id subject predicate object values
      = SurrealSink.mergeFields db id values := by
  unfold SurrealSink.reconcileTripleDraft
  rw [h.draftsOf_eq_nil]
  rfl

/-- What is set is written, and the rest is left alone. -/
theorem SurrealDb.get_mergeFields
    (hvalues : SurrealSink.nodeValues fmt id.table fields = some values) :
    (SurrealSink.mergeFields db id values).get place
      = (writtenFields fmt id fields place).or (db.get place) := by
  cases place with
  | edge edge => rfl
  | field key =>
    show ((SurrealSink.mergeFields db id values).fields.lookup key).map Sum.inl
      = (if key.1 = id then _ else none).or ((db.fields.lookup key).map Sum.inl)
    rw [SurrealSink.lookup_mergeFields, hvalues]
    by_cases hid : key.1 = id
    · rw [if_pos hid, if_pos hid]
      exact Option.map_or
    · rw [if_neg hid, if_neg hid]
      rfl

/-- Fields of the names of `nodeFields` leave a graph without drafts. -/
theorem SurrealDb.NoDrafts.mergeFields (h : db.NoDrafts)
    (hvalues : SurrealSink.nodeValues fmt id.table fields = some values)
    (hfields : "draftedBy" ∉ fields.map Prod.fst) :
    (SurrealSink.mergeFields db id values).NoDrafts := by
  intro id'
  rw [SurrealSink.lookup_mergeFields]
  by_cases hid : id' = id
  · rw [if_pos hid, h, Option.or_none]
    refine List.lookup_eq_none_iff.mpr fun v hv => bne_iff_ne.mpr fun heq => hfields ?_
    rw [← SurrealSink.map_fst_nodeValues fmt hvalues]
    exact List.mem_map.mpr ⟨v, List.mem_reverse.mp hv, heq.symm⟩
  · rw [if_neg hid]
    exact h id'

/-- Adding to a field leaves all places but this one alone. -/
theorem SurrealSink.get_incrementField {increment : String × SinkValue}
    (h : SurrealSink.incrementField fmt id db increment = some db')
    (hplace : place ≠ .field (id, increment.1)) : db'.get place = db.get place := by
  simp only [SurrealSink.incrementField, Option.bind_eq_bind, Option.bind_eq_some_iff,
    Option.pure_def, Option.some.injEq] at h
  obtain ⟨x, -, sum, -, rfl⟩ := h
  cases place with
  | edge edge => rfl
  | field key =>
    show Option.map _ ((db.fields.insert (id, increment.1) sum).lookup key) = _
    rw [Finmap.lookup_insert_of_ne _ fun heq => hplace (congrArg GraphPlace.field heq)]
    rfl

/-- The names of the fields that a projection sets are none of a draft's. -/
theorem GraphWriter.draftedBy_not_mem {table : String} {names : List String}
    (h : (table, names) ∈ p.nodeFields) : "draftedBy" ∉ names := by
  have hall : ∀ p : GraphWriter, ∀ f ∈ p.nodeFields, "draftedBy" ∉ f.2 := by
    intro p
    cases p <;> decide
  exact hall p _ h

/-- Adding to tallies leaves all other places alone. -/
theorem SurrealSink.get_incrementFields {increments : List (String × SinkValue)}
    (hdrafts : db.NoDrafts) (hadds : ∀ x ∈ increments, ∃ t : TallyId, t.field = (id, x.1))
    (h : increments.foldlM (SurrealSink.incrementField fmt id) db = some db') :
    db'.NoDrafts ∧ ∀ place : GraphPlace, place.Overwritten → db'.get place = db.get place := by
  induction increments generalizing db with
  | nil =>
    cases h
    exact ⟨hdrafts, fun _ _ => rfl⟩
  | cons increment increments ih =>
    obtain ⟨⟨t, ht⟩, htail⟩ := List.forall_mem_cons.mp hadds
    obtain ⟨db₁, hdb₁, hrest⟩ := Option.bind_eq_some_iff.mp h
    have hget : ∀ place : GraphPlace, place.Overwritten → db₁.get place = db.get place :=
      fun place hplace => SurrealSink.get_incrementField hdb₁ (ht ▸ hplace t)
    have hdrafts₁ : db₁.NoDrafts := by
      intro id'
      have hplace : (GraphPlace.field (id', "draftedBy")).Overwritten := fun t ht => by
        have hmem := t.field_mem
        rw [← GraphPlace.field.inj ht] at hmem
        simp at hmem
      simpa [SurrealDb.get, hdrafts id'] using hget _ hplace
    obtain ⟨hdrafts', hget'⟩ := ih hdrafts₁ htail hrest
    exact ⟨hdrafts', fun place hplace => (hget' place hplace).trans (hget place hplace)⟩

/-- **An operation overwrites a place or leaves it alone**, and makes no draft. -/
theorem SurrealSink.get_applyOp (hdrafts : db.NoDrafts) (hop : p.Issues op)
    (h : SurrealSink.applyOp fmt db op = some db') :
    db'.NoDrafts ∧ ∀ place : GraphPlace, place.Overwritten →
      db'.get place = (op.written fmt place).or (db.get place) := by
  cases op with
  | upsertNode id fields =>
    obtain ⟨values, hvalues, hdb⟩ := Option.bind_eq_some_iff.mp h
    cases hdb
    exact ⟨hdrafts.mergeFields hvalues (GraphWriter.draftedBy_not_mem hop),
      fun place _ => SurrealDb.get_mergeFields hvalues⟩
  | reconcileTripleDraft id subject predicate object fields =>
    obtain ⟨values, hvalues, hdb⟩ := Option.bind_eq_some_iff.mp h
    cases hdb
    rw [hdrafts.reconcileTripleDraft]
    exact ⟨hdrafts.mergeFields hvalues (GraphWriter.draftedBy_not_mem hop),
      fun place _ => SurrealDb.get_mergeFields hvalues⟩
  | upsertEdge source edgeTable target idSuffix fields =>
    obtain ⟨values, hvalues, hdb⟩ := Option.bind_eq_some_iff.mp h
    cases hdb
    refine ⟨hdrafts, fun place _ => ?_⟩
    have hwritten : (SinkOperation.upsertEdge source edgeTable target idSuffix fields).written fmt
        place = if place = .edge ⟨edgeTable, source.id, target.id, idSuffix⟩ then
          some (.inr ⟨source, target, values⟩) else none := by
      show (if _ then (edgeValues fmt edgeTable fields).map _ else none) = _
      rw [show edgeValues fmt edgeTable fields = some values from hvalues]
      rfl
    rw [hwritten]
    cases place with
    | field key => rfl
    | edge edge =>
      show Option.map _ ((db.edges.insert _ _).lookup edge) = _
      by_cases heq : edge = ⟨edgeTable, source.id, target.id, idSuffix⟩
      · rw [heq, if_pos rfl, Finmap.lookup_insert]
        rfl
      · rw [if_neg fun hplace => heq (GraphPlace.edge.inj hplace),
          Finmap.lookup_insert_of_ne _ heq]
        rfl
  | incrementFields id increments =>
    refine (get_incrementFields hdrafts hop.2 h).imp_right fun hget place hplace => ?_
    rw [hget place hplace]
    rfl

/-- **A batch overwrites a place or leaves it alone**: there is what its last operation that
writes there writes. -/
theorem SurrealSink.get_applyBatch (hdrafts : db.NoDrafts) (hops : ∀ op ∈ ops, p.Issues op)
    (h : SurrealSink.applyBatch fmt db ops = some db') :
    db'.NoDrafts ∧ ∀ place : GraphPlace, place.Overwritten →
      db'.get place = (Feed.lastWrite (SinkOperation.written fmt place) ops).or (db.get place) := by
  unfold SurrealSink.applyBatch at h
  induction ops generalizing db with
  | nil =>
    cases h
    exact ⟨hdrafts, fun _ _ => rfl⟩
  | cons op ops ih =>
    obtain ⟨hop, hops⟩ := List.forall_mem_cons.mp hops
    obtain ⟨db₁, hdb₁, hrest⟩ := Option.bind_eq_some_iff.mp h
    obtain ⟨hdrafts₁, hget₁⟩ := SurrealSink.get_applyOp hdrafts hop hdb₁
    obtain ⟨hdrafts', hget'⟩ := ih hdrafts₁ hops hrest
    refine ⟨hdrafts', fun place hplace => ?_⟩
    rw [hget' place hplace, hget₁ place hplace, Feed.lastWrite_cons, Option.or_assoc]

variable (fmt payload) in
/-- **What a projection writes at a place**, of an event. -/
def GraphWriter.writes (p : GraphWriter) (place : GraphPlace) (e : StoredEvent) :
    Option GraphValue :=
  Feed.lastWrite (SinkOperation.written fmt place) (p.operations fmt payload e)

/-- Fields write at the places of their node only, each what it is fitted to. -/
theorem writtenFields_eq_some {x : GraphValue} (h : writtenFields fmt id fields place = some x) :
    ∃ f ∈ fields, place = .field (id, f.1)
      ∧ ∃ v, valueToSurql fmt (normalizeNodeField id.table f.1 f.2) = some v ∧ x = .inl v := by
  cases place with
  | edge edge => cases h
  | field key =>
    obtain ⟨hid, hvalue⟩ := Option.ite_none_right_eq_some.mp h
    obtain ⟨value, hlookup, rfl⟩ := Option.map_eq_some_iff.mp hvalue
    cases hvalues : SurrealSink.nodeValues fmt id.table fields with
    | none =>
      rw [hvalues] at hlookup
      cases hlookup
    | some values =>
      rw [hvalues] at hlookup
      obtain ⟨before, after, hsplit, -⟩ := List.lookup_eq_some_iff.mp hlookup
      have hv : (key.2, value) ∈ values := by
        rw [← List.mem_reverse, show values.reverse = _ from hsplit]
        simp
      obtain ⟨f, hf, hfv⟩ := (Result.mapM_eq_some hvalues).2.1 _ hv
      obtain ⟨v, hfitted, heq⟩ := Option.bind_eq_some_iff.mp hfv
      obtain ⟨hname, rfl⟩ := Prod.mk.inj (Option.some.inj heq)
      exact ⟨f, hf, congrArg GraphPlace.field (Prod.ext hid hname.symm), v, hfitted, rfl⟩

/-- **Only its writers write a place.** -/
theorem GraphWriter.mem_writers {x : GraphValue} (h : p.writes fmt payload place e = some x) :
    p ∈ place.writers := by
  obtain ⟨op, hop, hwritten⟩ := Feed.exists_of_lastWrite h
  have hall : p ∈ GraphWriter.allProjections := by cases p <;> decide
  refine List.mem_filter.mpr ⟨hall, ?_⟩
  have hissues := GraphWriter.issues_of_mem hop
  have hfield : ∀ {id : RecordId} {fields : List (String × SinkValue)},
      (id.table, fields.map Prod.fst) ∈ p.nodeFields →
      writtenFields fmt id fields place = some x →
      p.mayWrite place = true := by
    intro id fields hmem hwritten
    obtain ⟨f, hf, rfl, -⟩ := writtenFields_eq_some hwritten
    refine List.any_eq_true.mpr ⟨_, hmem, ?_⟩
    simpa using List.mem_map_of_mem (f := Prod.fst) hf
  cases op with
  | upsertNode id fields => exact hfield hissues hwritten
  | reconcileTripleDraft id subject predicate object fields => exact hfield hissues hwritten
  | upsertEdge source edgeTable target idSuffix fields =>
    obtain ⟨rfl, -⟩ := Option.ite_none_right_eq_some.mp hwritten
    exact decide_eq_true hissues
  | incrementFields id increments => cases hwritten

/-! ## Contested fields -/

/-- A field that several projections write, with values that are not the same: when an account
was last seen, who made a vault and when if its term is an atom and a triple, and what a
position is of if two have the same id. -/
def GraphPlace.Contested (place : GraphPlace) : Prop :=
  ∃ id name, place = .field (id, name)
    ∧ (id.table, name) ∈ [("account", "updatedAt"), ("vault", "createdBy"), ("vault", "updatedAt"),
      ("position", "account"), ("position", "vault")]

/-- The fields that a projection sets, with their tables. -/
def GraphWriter.fieldPairs (p : GraphWriter) : List (String × String) :=
  p.nodeFields.flatMap fun f => f.2.map fun name => (f.1, name)

/-- The fields that have one value only: the address of an account, and that a node is of the
chain. -/
def SinkOperation.SetsFixed : SinkOperation → Prop
  | upsertNode id fields | reconcileTripleDraft id _ _ _ fields =>
    ∀ f ∈ fields, (f.1 = "onchain" → f.2 = .bool true)
      ∧ (id.table = "account" → f.1 = "address" → f.2 = .string id.id)
  | _ => True

theorem GraphWriter.setsFixed_of_mem (h : op ∈ p.operations fmt payload e) :
    op.SetsFixed := by
  obtain hnil | hbuilds := @builds_operations fmt payload p e
  · rw [hnil] at h
    cases h
  · revert op
    cases p with
    | atom =>
      obtain ⟨creator, termId, hex, display, ts, hops⟩ := hbuilds
      rw [hops]
      simp only [AtomProjection.buildRawAtomOps, SinkOperation.SetsFixed, List.forall_mem_cons]
      simp
    | triple =>
      obtain ⟨creator, termId, subjectId, predicateId, objectId, ts, hops⟩ := hbuilds
      rw [hops]
      simp only [TripleProjection.buildRawTripleOps, SinkOperation.SetsFixed, List.forall_mem_cons]
      simp
    | deposit =>
      obtain ⟨sender, receiver, termId, curveId, assets, shares, block, ts, tx, log, hops⟩ :=
        hbuilds
      rw [hops]
      simp only [DepositProjection.buildDepositOpsInner, SinkOperation.SetsFixed,
        List.forall_mem_cons]
      simp
    | redeem =>
      obtain ⟨sender, termId, curveId, assets, negAssets, negShares, block, ts, tx, log, hops⟩ :=
        hbuilds
      rw [hops]
      simp only [RedeemProjection.buildRedeemOpsInner, SinkOperation.SetsFixed,
        List.forall_mem_cons]
      simp
    | price =>
      obtain ⟨termId, sharePrice, hops⟩ := hbuilds
      rw [hops]
      simp only [PriceProjection.buildVaultPriceOp, SinkOperation.SetsFixed, List.forall_mem_cons]
      simp
    | fee =>
      obtain ⟨sender, hops⟩ := hbuilds
      rw [hops]
      simp only [FeeProjection.buildAccountOp, SinkOperation.SetsFixed, List.forall_mem_cons]
      simp

/-- A field that has one value only is written with it. -/
theorem GraphWriter.fixed_of_writes {name : String} {x : GraphValue}
    (h : p.writes fmt payload (.field (id, name)) e = some x)
    (hname : name = "onchain" ∨ (id.table, name) = ("account", "address")) :
    x = if name = "onchain" then .inl (.bool true)
      else .inl ((valueToSurql fmt (.string id.id)).getD .noneValue) := by
  obtain ⟨op, hop, hwritten⟩ := Feed.exists_of_lastWrite h
  have hfixed := setsFixed_of_mem hop
  have hfields : ∀ {id' : RecordId} {fields : List (String × SinkValue)},
      (∀ f ∈ fields, (f.1 = "onchain" → f.2 = .bool true)
        ∧ (id'.table = "account" → f.1 = "address" → f.2 = .string id'.id)) →
      writtenFields fmt id' fields (.field (id, name)) = some x →
      x = if name = "onchain" then .inl (.bool true)
        else .inl ((valueToSurql fmt (.string id.id)).getD .noneValue) := by
    intro id' fields hfixed hwritten
    obtain ⟨f, hf, hplace, v, hv, rfl⟩ := writtenFields_eq_some hwritten
    obtain ⟨honchain, haddress⟩ := hfixed f hf
    cases GraphPlace.field.inj hplace
    by_cases hon : f.1 = "onchain"
    · rw [if_pos hon]
      rw [hon, honchain hon] at hv
      have hnormal : normalizeNodeField id.table "onchain" (.bool true) = .bool true := by
        unfold normalizeNodeField
        split <;> simp_all
      rw [hnormal] at hv
      cases hv
      rfl
    · rw [if_neg hon]
      obtain ⟨htable, hf1⟩ := Prod.mk.inj (hname.resolve_left hon)
      rw [htable, hf1, haddress htable hf1] at hv
      rw [show valueToSurql fmt (.string id.id) = some v from hv]
      rfl
  cases op with
  | upsertNode id' fields => exact hfields hfixed hwritten
  | reconcileTripleDraft id' subject predicate object fields => exact hfields hfixed hwritten
  | upsertEdge source edgeTable target idSuffix fields =>
    rw [SinkOperation.written, if_neg (by simp)] at hwritten
    cases hwritten
  | incrementFields id' increments => cases hwritten

/-- **What two projections both write** is contested, or has one value only. -/
theorem GraphWriter.shared_fields (hpq : p ≠ q) {f : String × String}
    (hp : f ∈ p.fieldPairs) (hq : f ∈ q.fieldPairs) :
    f ∈ [("account", "updatedAt"), ("vault", "createdBy"), ("vault", "updatedAt"),
        ("position", "account"), ("position", "vault")]
      ∨ f.2 = "onchain" ∨ f = ("account", "address") := by
  have hall : ∀ p q : GraphWriter, p ≠ q → ∀ f ∈ p.fieldPairs, f ∈ q.fieldPairs →
      f ∈ [("account", "updatedAt"), ("vault", "createdBy"), ("vault", "updatedAt"),
          ("position", "account"), ("position", "vault")]
        ∨ f.2 = "onchain" ∨ f = ("account", "address") := by
    intro p q
    cases p <;> cases q <;> decide
  exact hall p q hpq f hp hq

/-- A writer of a field sets it. -/
theorem GraphWriter.mem_fieldPairs {name : String}
    (h : p ∈ (GraphPlace.field (id, name)).writers) : (id.table, name) ∈ p.fieldPairs := by
  obtain ⟨f, hf, hname⟩ := List.any_eq_true.mp (List.mem_filter.mp h).2
  obtain ⟨htable, hname⟩ := (Bool.and_eq_true _ _).mp hname
  refine List.mem_flatMap.mpr ⟨f, hf, List.mem_map.mpr ⟨name, ?_, ?_⟩⟩
  · exact List.contains_iff_mem.mp hname
  · rw [of_decide_eq_true htable]

/-- **Where a place is not contested, all that write it agree**, each with what it has come
through. -/
theorem GraphWriter.lastWrite_unique {es : GraphWriter → List StoredEvent}
    {x y : GraphValue} (hplace : ¬ place.Contested)
    (hp : Feed.lastWrite (p.writes fmt payload place) (es p) = some x)
    (hq : Feed.lastWrite (q.writes fmt payload place) (es q) = some y) : x = y := by
  by_cases hpq : p = q
  · subst hpq
    exact Option.some.inj (hp.symm.trans hq)
  · obtain ⟨e, -, he⟩ := Feed.exists_of_lastWrite hp
    obtain ⟨f, -, hf⟩ := Feed.exists_of_lastWrite hq
    have hpw := mem_writers he
    have hqw := mem_writers hf
    cases place with
    | edge id =>
      have hedge : ∀ p q : GraphWriter, p ≠ q → p.edgeTable?.isSome →
          p.edgeTable? ≠ q.edgeTable? := by
        intro p q
        cases p <;> cases q <;> decide
      have hpt : p.edgeTable? = some id.edgeTable := of_decide_eq_true (List.mem_filter.mp hpw).2
      have hqt : q.edgeTable? = some id.edgeTable := of_decide_eq_true (List.mem_filter.mp hqw).2
      exact absurd (hpt.trans hqt.symm) (hedge p q hpq (hpt ▸ rfl))
    | field key =>
      obtain ⟨id, name⟩ := key
      have hname := (shared_fields hpq (mem_fieldPairs hpw) (mem_fieldPairs hqw)).resolve_left
        fun h => hplace ⟨id, name, rfl, h⟩
      exact (fixed_of_writes he hname).trans (fixed_of_writes hf hname).symm

end Projections
