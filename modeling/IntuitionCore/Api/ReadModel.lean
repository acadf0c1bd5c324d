import IntuitionCore.Api.Tables
import Mathlib.Algebra.BigOperators.Group.Finset.Basic
import Mathlib.Order.Lex

/-!
# The routes that read

A route that reads selects rows of the public read model, puts the latest first and returns
a page of them, or the one row that it is asked for. Triples may be returned with the atoms
they are made of, which are joined under the same condition; events are served as long as
what they are about is.

How an atom is presented is left open: it is a function of the columns that were selected.
-/

namespace KgApi

/-! ## What is asked for -/

/-- The parameters of a request; of one that is given twice the first. -/
abbrev QueryParams := String → Option String

/-- The digits that a text starts with. -/
def leadingDigits (cs : List Char) : Option ℕ :=
  let digits := cs.takeWhile Char.isDigit
  if digits.isEmpty then none else some (Nat.ofDigitChars 10 digits 0)

/-- `Number.parseInt(s, 10)`; nothing if that is no number. -/
def parseInt (s : String) : Option ℤ :=
  match s.toList.dropWhile isJsSpace with
  | '-' :: cs => (leadingDigits cs).map fun n => -(n : ℤ)
  | '+' :: cs => (leadingDigits cs).map Int.ofNat
  | cs => (leadingDigits cs).map Int.ofNat

def maxPageSize : ℕ := 100

def defaultPageSize : ℕ := 25

/-- The limit and the offset of a page. A limit of zero is no limit. -/
def parsePagination (query : QueryParams) : ℕ × ℕ :=
  let limit := ((query "limit").elim (some (defaultPageSize : ℤ)) parseInt).getD 0
  let offset := ((query "offset").elim (some 0) parseInt).getD 0
  let limit := if limit = 0 then (defaultPageSize : ℤ) else limit
  (min (max limit 1).toNat maxPageSize, offset.toNat)

/-- A parameter that is given, and not empty. -/
def QueryParams.given (query : QueryParams) (name : String) : Option String :=
  (query name).filter fun value => !value.isEmpty

def wantsExpandedTerms (query : QueryParams) : Bool := query "expand" = some "terms"

/-- The characters of a pattern that stand for themselves. -/
def escapeLikePattern (input : List Char) : List Char :=
  input.flatMap fun c => if c = '\\' ∨ c = '%' ∨ c = '_' then ['\\', c] else [c]

/-- Whether a text matches a pattern, up to the case of letters. -/
def ilike (lower : Char → Char) : List Char → List Char → Bool
  | [], text => text.isEmpty
  | '%' :: pattern, text => text.tails.any (ilike lower pattern)
  | '_' :: pattern, text => !text.isEmpty && ilike lower pattern text.tail
  | '\\' :: c :: pattern, d :: text => lower c == lower d && ilike lower pattern text
  | c :: pattern, d :: text => lower c == lower d && ilike lower pattern text
  | _ :: _, [] => false

/-! ## What is answered -/

/-- The columns of an atom in a list. -/
structure AtomListRow where
  id : String
  createdAt : ℤ
  isOnchain : Bool
  rawType : String
  data : Option String
  iid : Option String
  dataResolved : JsonObject
  parseResult : Option KgJson
  classificationType : String
  parseStatus : String
  classificationStatus : String
  classificationResult : Option KgJson
  enrichmentStatus : String
  enrichmentError : Option KgJson
  enrichedAt : Option ℤ

/-- The columns of an atom that is a term of a triple. -/
structure ExpandedAtomTermSource where
  id : String
  data : Option String
  dataResolved : JsonObject
  classificationType : String
  rawType : String

/-- The context of an atom, as it is presented. -/
structure AtomContextView where
  eventSequence : ℕ
  ordinal : ℕ
  uri : Option String
  source : String := "onchain"
  raw : String
  registrant : String
  transactionHash : String
  logIndex : ℕ

def presentPersistedAtomContext (context : NodeContextRow) : AtomContextView where
  eventSequence := context.eventSequence
  ordinal := context.ordinal
  uri := context.uriText
  raw := context.uriHex
  registrant := context.registrant
  transactionHash := context.transactionHash
  logIndex := context.logIndex

/-- How atoms are presented, whether or not the semantic envelope is enabled, and what
`/api/schema` says. -/
structure Presentation (J : Type) where
  exposeAtomListView : AtomListRow → Bool → J
  exposeAtomDetailView : String × AtomRow → Option (List AtomContextView) → Bool → J
  exposeExpandedAtomTerm : ExpandedAtomTermSource → Bool → J
  schemaMetadata : J

/-- The columns of an artifact that are served. -/
structure ArtifactView where
  id : String
  createdAt : ℕ
  updatedAt : ℕ
  artifactKind : String
  artifactVersion : String
  status : String
  sourceUri : Option String
  data : KgJson
  extracted : KgJson
  error : Option KgJson

/-- A triple with its terms, as far as they are public. -/
structure ExpandedTriple (J : Type) where
  triple : String × TripleRow
  subject : Option J
  predicate : Option J
  object : Option J

/-- The totals of `/api/stats`. -/
structure StatsView where
  atoms : ℕ
  triples : ℕ
  accounts : ℕ
  predicates : ℕ

structure Pagination where
  limit : ℕ
  offset : ℕ
  count : ℕ

/-- What an answer to a request that reads says. -/
inductive ReadBody (J : Type) where
  | error (error : String) (message : Option String)
  | noRoute
  | healthy
  | schema (data : J)
  | atoms (data : List J) (pagination : Pagination)
  | atom (data : J) (stats : Option NodeStatsRow)
  | artifacts (data : List ArtifactView) (pagination : Pagination)
  | triples (data : List (String × TripleRow)) (pagination : Pagination)
  | expandedTriples (data : List (ExpandedTriple J)) (pagination : Pagination)
  | triple (data : String × TripleRow)
  | expandedTriple (data : ExpandedTriple J)
  | events (data : List ((ℤ × String) × KgEventRow)) (pagination : Pagination)
  | predicates (data : List (String × PredicateRow))
  | pipeline (data : NodeProcessingStage → Table String ℕ)
  | stats (data : StatsView)

/-- A status and what is said with it. -/
structure ReadReply (J : Type) where
  status : ℕ
  body : ReadBody J

namespace ReadReply

variable {J : Type}

def ok (body : ReadBody J) : ReadReply J := ⟨200, body⟩

def notFound : ReadReply J := ⟨404, .error "not_found" none⟩

def noRoute : ReadReply J := ⟨404, .noRoute⟩

def internalError : ReadReply J := ⟨500, .error "internal_error" none⟩

/-- A query fails if PostgreSQL cannot hold one of its texts. -/
def withTexts (texts : List String) (reply : ReadReply J) : ReadReply J :=
  if texts.any fun s => s.toList.contains '\x00' then internalError else reply

/-- A query for a page fails if its offset is no `bigint`. -/
def withOffset (offset : ℕ) (reply : ReadReply J) : ReadReply J :=
  if offset < 9223372036854775808 then reply else internalError

/-- A page of some rows. -/
def paged {α β : Type} (pagination : ℕ × ℕ) (rows : List α) (view : α → β)
    (body : List β → Pagination → ReadBody J) : ReadReply J :=
  let data := page pagination.1 pagination.2 rows
  withOffset pagination.2
    (ok (body (data.map view) ⟨pagination.1, pagination.2, data.length⟩))

/-- The one row that is asked for. -/
def one {α : Type} (row : Option α) (body : α → ReadBody J) : ReadReply J :=
  row.elim notFound fun r => ok (body r)

end ReadReply

/-! ## Atoms -/

section Routes

variable {J : Type} (presentation : Presentation J) (lower : Char → Char) (semantic : Bool)
  (db : KgDb)

open ReadReply

/-- The columns of an atom that lists select. -/
def listRow (row : String × AtomRow) : AtomListRow where
  id := row.1
  createdAt := row.2.createdAt
  isOnchain := row.2.isOnchain
  rawType := row.2.rawType
  data := row.2.data
  iid := row.2.iid
  dataResolved := row.2.dataResolved
  parseResult := row.2.parseResult
  classificationType := row.2.classificationType
  parseStatus := row.2.processing.parseStatus
  classificationStatus := row.2.processing.classificationStatus
  classificationResult := row.2.classificationResult
  enrichmentStatus := row.2.processing.enrichmentStatus
  enrichmentError := row.2.enrichmentError
  enrichedAt := row.2.enrichedAt

/-- An atom in a list. -/
def listView (row : String × AtomRow) : J :=
  presentation.exposeAtomListView (listRow row) semantic

/-- The latest rows first, and the greater ids of those of the same time. -/
def latestFirst {κ : Type} (time : ℤ) (id : κ) : (ℤ ×ₗ κ)ᵒᵈ := OrderDual.toDual (toLex (time, id))

/-- `GET /api/atoms`. -/
def getAtoms (query : QueryParams) : ReadReply J :=
  let classificationType := query.given "classification_type"
  let q := query.given "q"
  let rows := db.nodes.select fun _ row => publicNodes row
    ∧ (∀ type ∈ classificationType, row.classificationType = type)
    ∧ ∀ text ∈ q,
      ilike lower ('%' :: escapeLikePattern text.toList ++ ['%']) row.searchText.toList = true
  withTexts (classificationType.toList ++ q.toList)
    (paged (parsePagination query) (rows.orderBy fun id row => latestFirst row.createdAt id)
      (listView presentation semantic) .atoms)

/-- The atoms that an identifier is of, as the one or as another one of theirs. -/
def nodesOfIid (iid : String) : Finset String :=
  (db.nodes.select fun _ row => row.iid = some iid).keys
    ∪ (db.nodeIdentifiers.filter fun identifier => identifier.2 = iid).image Prod.fst

/-- `listPublicNodesByIid`: those whose own identifier it is come first. -/
def listPublicNodesByIid (iid : String) : List (String × AtomRow) :=
  (db.nodes.select fun id row => id ∈ nodesOfIid db iid ∧ publicNodes row).orderBy fun id row =>
    toLex (OrderDual.toDual (decide (row.iid = some iid)), latestFirst row.createdAt id)

/-- `GET /api/iids/:iid/atoms`. -/
def getIidAtoms (iid : String) (query : QueryParams) : ReadReply J :=
  if (jsTrim iid).isEmpty then ⟨400, .error "invalid_iid" (some "iid must not be empty")⟩
  else withTexts [iid]
    (paged (parsePagination query) (listPublicNodesByIid db iid) (listView presentation semantic)
      .atoms)

/-- The atom of an id, if it is public. -/
def publicNode (id : String) : Option (String × AtomRow) :=
  ((db.nodes.select fun _ row => publicNodes row).lookup id).map fun row => (id, row)

/-- `listNodeContexts`: in the order in which they were registered. -/
def listNodeContexts (id : String) : List NodeContextRow :=
  let rows : Table (String ×ₗ String ×ₗ ℕ ×ₗ ℕ) NodeContextRow :=
    db.nodeContexts.select fun _ row => row.nodeId = id
  (rows.orderBy fun _ row => toLex (row.eventSequence, row.ordinal)).map Prod.snd

/-- `GET /api/atoms/:id`. -/
def getAtom (id : String) : ReadReply J :=
  let context :=
    if semantic then some ((listNodeContexts db id).map presentPersistedAtomContext) else none
  withTexts [id] (one (publicNode db id) fun row =>
    .atom (presentation.exposeAtomDetailView row context semantic) (db.nodeStats.lookup id))

def artifactView (row : String × Artifact) : ArtifactView where
  id := row.1
  createdAt := row.2.createdAt
  updatedAt := row.2.updatedAt
  artifactKind := row.2.artifactKind
  artifactVersion := row.2.artifactVersion
  status := row.2.status
  sourceUri := row.2.sourceUri
  data := row.2.data
  extracted := row.2.extracted
  error := row.2.error

/-- The artifacts of an atom. -/
def artifactsOf (id : String) : List (String × Artifact) :=
  (db.artifacts.select fun _ row => row.nodeId = id).orderBy fun id row =>
    latestFirst row.createdAt id

/-- `GET /api/atoms/:id/artifacts`. -/
def getArtifacts (id : String) (query : QueryParams) : ReadReply J :=
  withTexts [id] ((publicNode db id).elim notFound fun _ =>
    paged (parsePagination query) (artifactsOf db id) artifactView .artifacts)

/-! ## Triples -/

/-- A term of a triple, joined if it is public. -/
def joinTerm (id : String) : Option J :=
  (publicNode db id).map fun row => presentation.exposeExpandedAtomTerm
    ⟨id, row.2.data, row.2.dataResolved, row.2.classificationType, row.2.rawType⟩ semantic

/-- A triple with the terms that are joined to it. -/
def expandTriple (triple : String × TripleRow) : ExpandedTriple J where
  triple := triple
  subject := joinTerm presentation semantic db triple.2.subjectId
  predicate := joinTerm presentation semantic db triple.2.predicateId
  object := joinTerm presentation semantic db triple.2.objectId

/-- A page of some triples, expanded if that is asked for. -/
def pageOfTriples (query : QueryParams) (triples : Table String TripleRow) : ReadReply J :=
  let rows := triples.orderBy fun id row => latestFirst row.createdAt id
  if wantsExpandedTerms query then
    paged (parsePagination query) rows (expandTriple presentation semantic db) .expandedTriples
  else paged (parsePagination query) rows id .triples

/-- `GET /api/atoms/:id/triples`: those that it is in, in any position. -/
def getAtomTriples (id : String) (query : QueryParams) : ReadReply J :=
  withTexts [id] (pageOfTriples presentation semantic db query
    (db.graph.triples.select fun _ row =>
      (row.subjectId = id ∨ row.predicateId = id ∨ row.objectId = id) ∧ publicTriples row))

/-- `GET /api/triples`. -/
def getTriples (query : QueryParams) : ReadReply J :=
  let subjectId := query.given "subject_id"
  let predicateId := query.given "predicate_id"
  let objectId := query.given "object_id"
  withTexts (subjectId.toList ++ predicateId.toList ++ objectId.toList)
    (pageOfTriples presentation semantic db query
      (db.graph.triples.select fun _ row => publicTriples row
        ∧ (∀ id ∈ subjectId, row.subjectId = id)
        ∧ (∀ id ∈ predicateId, row.predicateId = id)
        ∧ ∀ id ∈ objectId, row.objectId = id))

/-- `GET /api/triples/:id`. -/
def getTriple (id : String) (query : QueryParams) : ReadReply J :=
  let row := ((db.graph.triples.select fun _ row => publicTriples row).lookup id).map
    fun row => (id, row)
  withTexts [id]
    (if wantsExpandedTerms query then
      one row fun row => .expandedTriple (expandTriple presentation semantic db row)
    else one row .triple)

/-! ## Events and statistics -/

/-- The artifact of an id belongs to an atom that is public. -/
def hasPublicNode (id : String) : Prop :=
  ∃ row ∈ db.artifacts.lookup id, (publicNode db row.nodeId).isSome = true

instance (id : String) : Decidable (hasPublicNode db id) :=
  inferInstanceAs (Decidable (∃ row ∈ db.artifacts.lookup id, _))

/-- The events whose entity is public; predicates are. -/
def publicEvents (row : KgEventRow) : Prop :=
  (row.entityKind = "node" ∧ (publicNode db row.entityId).isSome = true)
    ∨ (row.entityKind = "triple"
      ∧ ((db.graph.triples.select fun _ row => publicTriples row).lookup
        row.entityId).isSome = true)
    ∨ (row.entityKind = "artifact" ∧ hasPublicNode db row.entityId)
    ∨ row.entityKind = "predicate"

instance (row : KgEventRow) : Decidable (publicEvents db row) :=
  inferInstanceAs (Decidable (_ ∨ _ ∨ _ ∨ _))

/-- `GET /api/events`. -/
def getEvents (query : QueryParams) : ReadReply J :=
  let entityKind := query.given "entity_kind"
  let eventType := query.given "event_type"
  let entityId := query.given "entity_id"
  let rows : Table (ℤ ×ₗ String) KgEventRow := db.graph.events.select fun _ row =>
    publicEvents db row
    ∧ (∀ kind ∈ entityKind, row.entityKind = kind)
    ∧ (∀ type ∈ eventType, row.eventType = type)
    ∧ ∀ id ∈ entityId, row.entityId = id
  withTexts (entityKind.toList ++ eventType.toList ++ entityId.toList)
    (paged (parsePagination query)
      (rows.orderBy fun key _ => latestFirst (ofLex key).1 (ofLex key).2)
      (fun row => (ofLex row.1, row.2)) .events)

/-- `GET /api/predicates`. -/
def getPredicates : ReadReply J :=
  ok (.predicates (db.graph.predicates.orderBy fun _ row => row.slug))

/-- The statuses of the parse, the classification and the enrichment of an atom. -/
abbrev PipelineStatus := String × String × String

def PipelineStatus.of : PipelineStatus → NodeProcessingStage → String
  | (status, _, _), .parse => status
  | (_, status, _), .classification => status
  | (_, _, status), .enrichment => status

/-- How many public atoms there are of each combination of statuses. -/
def pipelineGroups : Table PipelineStatus ℕ :=
  let statuses := (db.nodes.select fun _ row => publicNodes row).entries.map fun entry =>
    (entry.2.processing.parseStatus, entry.2.processing.classificationStatus,
      entry.2.processing.enrichmentStatus)
  Table.tabulate statuses.toFinset fun status => statuses.count status

/-- How many of some groups have each status of a stage. -/
def aggregatePipelineStats (rows : Table PipelineStatus ℕ) (stage : NodeProcessingStage) :
    Table String ℕ :=
  Table.tabulate (rows.keys.image fun row => row.of stage) fun status =>
    ∑ row ∈ rows.keys with row.of stage = status, (rows.lookup row).getD 0

/-- `GET /api/stats/pipeline`. -/
def getPipeline : ReadReply J := ok (.pipeline (aggregatePipelineStats (pipelineGroups db)))

/-- `GET /api/stats`. -/
def getStats : ReadReply J :=
  ok (.stats
    { atoms := (db.nodes.select fun _ row => publicNodes row).keys.card
      triples := (db.graph.triples.select fun _ row => publicTriples row).keys.card
      accounts := db.graph.accounts.card
      predicates := db.graph.predicates.keys.card })

/-! ## The routes -/

/-- A parameter of a path is not empty. -/
def withParam (param : String) (reply : ReadReply J) : ReadReply J :=
  if param.isEmpty then noRoute else reply

/-- **The answer to a `GET` request**, by the segments of its path. -/
def respond (path : List String) (query : QueryParams) : ReadReply J :=
  match path with
  | ["health"] => ok .healthy
  | ["api", "schema"] => ok (.schema presentation.schemaMetadata)
  | ["api", "atoms"] => getAtoms presentation lower semantic db query
  | ["api", "iids", iid, "atoms"] =>
    withParam iid (getIidAtoms presentation semantic db iid query)
  | ["api", "atoms", id] => withParam id (getAtom presentation semantic db id)
  | ["api", "atoms", id, "artifacts"] => withParam id (getArtifacts db id query)
  | ["api", "atoms", id, "triples"] =>
    withParam id (getAtomTriples presentation semantic db id query)
  | ["api", "triples"] => getTriples presentation semantic db query
  | ["api", "triples", id] => withParam id (getTriple presentation semantic db id query)
  | ["api", "events"] => getEvents db query
  | ["api", "predicates"] => getPredicates db
  | ["api", "stats", "pipeline"] => getPipeline db
  | ["api", "stats"] => getStats db
  | _ => noRoute

end Routes

end KgApi
