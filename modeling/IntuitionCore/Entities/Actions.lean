import IntuitionCore.Entities.Stores

/-!
# Creation through the API

Atoms and triples can also be created by a request to the API. Their ids are
computed from the data of the atom and from the parts of the triple, as the
protocol computes them; how it does so is left to `ProtocolIds`. A row is
inserted unless there is one of its id already.

Who may write is left out: a request that is let through has the account of its
API key, or none.
-/

/-! ## Texts -/

/-- The characters `trim` removes. -/
def isJsSpace (c : Char) : Bool :=
  let n := c.toNat
  (9 ≤ n && n ≤ 13) || n == 0x20 || n == 0xA0 || n == 0x1680 || (0x2000 ≤ n && n ≤ 0x200A)
    || n == 0x2028 || n == 0x2029 || n == 0x202F || n == 0x205F || n == 0x3000 || n == 0xFEFF

/-- A space is no digit. -/
theorem isDigit_of_isJsSpace {c : Char} (h : isJsSpace c = true) : c.isDigit = false := by
  have hdigit : ¬ (48 ≤ c.toNat ∧ c.toNat ≤ 57) := by
    simp only [isJsSpace, Bool.or_eq_true, Bool.and_eq_true, decide_eq_true_eq, beq_iff_eq] at h
    omega
  rw [← Bool.not_eq_true]
  intro hc
  simp only [Char.isDigit, Bool.and_eq_true, decide_eq_true_eq] at hc
  exact hdigit hc

/-- A text without the spaces around it. -/
def jsTrim (s : String) : List Char :=
  ((s.toList.dropWhile isJsSpace).reverse.dropWhile isJsSpace).reverse

/-- The number of UTF-16 code units of a text. -/
def jsLength (s : String) : ℕ :=
  (s.toList.map fun c => if c.toNat < 0x10000 then 1 else 2).sum

namespace JsonText

/-- The spaces of JSON. -/
def skipSpace : List Char → List Char :=
  List.dropWhile fun c => c == ' ' || c == '\t' || c == '\n' || c == '\r'

/-- What follows a string after its opening quote. -/
def string : List Char → Option (List Char)
  | [] => none
  | '"' :: cs => some cs
  | '\\' :: 'u' :: a :: b :: c :: d :: cs =>
    if [a, b, c, d].all fun h => (hexDigit? h).isSome then string cs else none
  | '\\' :: c :: cs =>
    if ['"', '\\', '/', 'b', 'f', 'n', 'r', 't'].contains c then string cs else none
  | c :: cs => if c.toNat < 0x20 then none else string cs

/-- What follows one digit or more. -/
def digits : List Char → Option (List Char)
  | c :: cs => if c.isDigit then some (cs.dropWhile Char.isDigit) else none
  | [] => none

/-- What follows a number. -/
def number (cs : List Char) : Option (List Char) := do
  let cs := match cs with
    | '-' :: cs => cs
    | cs => cs
  let cs ← match cs with
    | '0' :: cs => some cs
    | cs => digits cs
  let cs ← match cs with
    | '.' :: cs => digits cs
    | cs => some cs
  match cs with
  | 'e' :: '+' :: cs | 'e' :: '-' :: cs | 'E' :: '+' :: cs | 'E' :: '-' :: cs => digits cs
  | 'e' :: cs | 'E' :: cs => digits cs
  | cs => some cs

/-- What of a JSON text is read: a value, the elements of an array that is not
empty, or the members of an object that is not empty. -/
inductive Part where
  | value
  | elements
  | members

/-- What follows a part of a JSON text; parts are nested at most so deep. -/
def part : ℕ → Part → List Char → Option (List Char)
  | 0, _, _ => none
  | depth + 1, .value, cs =>
    match skipSpace cs with
    | '{' :: cs =>
      match skipSpace cs with
      | '}' :: cs => some cs
      | cs => part depth .members cs
    | '[' :: cs =>
      match skipSpace cs with
      | ']' :: cs => some cs
      | cs => part depth .elements cs
    | '"' :: cs => string cs
    | 't' :: 'r' :: 'u' :: 'e' :: cs => some cs
    | 'f' :: 'a' :: 'l' :: 's' :: 'e' :: cs => some cs
    | 'n' :: 'u' :: 'l' :: 'l' :: cs => some cs
    | cs => number cs
  | depth + 1, .elements, cs => do
    let cs ← part depth .value cs
    match skipSpace cs with
    | ',' :: cs => part depth .elements cs
    | ']' :: cs => some cs
    | _ => none
  | depth + 1, .members, cs =>
    match skipSpace cs with
    | '"' :: cs => do
      let cs ← string cs
      match skipSpace cs with
      | ':' :: cs =>
        let cs ← part depth .value cs
        match skipSpace cs with
        | ',' :: cs => part depth .members cs
        | '}' :: cs => some cs
        | _ => none
      | _ => none
    | _ => none

/-- Whether `JSON.parse` accepts a text. -/
def parses (cs : List Char) : Bool :=
  match part (cs.length + 1) .value cs with
  | some rest => (skipSpace rest).isEmpty
  | none => false

end JsonText

/-! ## Ids -/

/-- How the protocol computes the ids of atoms and triples. -/
structure ProtocolIds where
  calculateAtomId : String → String
  calculateTripleId : String → String → String → String

/-- Whether a text is the id of a term: 32 bytes in hexadecimal digits. -/
def isProtocolTermId (cs : List Char) : Bool :=
  match cs with
  | '0' :: 'x' :: digits => digits.length == 64 && digits.all fun c => (hexDigit? c).isSome
  | _ => false

def tryNormalizeProtocolTermId (value : String) : Option String :=
  let trimmed := jsTrim value
  let normalized :=
    if "atom:".toList.isPrefixOf trimmed || "triple:".toList.isPrefixOf trimmed then
      (trimmed.dropWhile (· ≠ ':')).drop 1
    else trimmed
  if isProtocolTermId normalized then some (.ofList normalized) else none

def normalizeProtocolTermId (value label : String) : Except String String :=
  Result.okOr (tryNormalizeProtocolTermId value)
    s!"{label} must be a 32-byte 0x-prefixed protocol term id."

/-! ## Actions -/

section Actions

variable (ids : ProtocolIds)

/-- The kinds of input the API tells apart. -/
inductive KgNodeRawType where
  | string
  | json
  | httpUri
  | ipfsUri
  | iid
  deriving DecidableEq, Repr

/-- The name a kind is stored under. -/
def KgNodeRawType.asStr : KgNodeRawType → String
  | string => "string"
  | json => "json"
  | httpUri => "http_uri"
  | ipfsUri => "ipfs_uri"
  | iid => "iid"

/-- A reference to a term. -/
structure KgActionRef where
  type : String
  id : String

structure EnsureNodeInput where
  id : Option String := none
  rawType : KgNodeRawType
  classificationType : String
  data : Option String := none
  dataHex : Option String := none
  dataResolved : Option JsonObject := none
  searchText : Option String := none
  createdBy : Option String := none

structure EnsureTripleInput where
  subject : KgActionRef
  predicate : KgActionRef
  object : KgActionRef
  createdBy : Option String := none
  edgeKind : Option String := none
  source : Option String := none
  sourceUri : Option String := none
  metadata : Option JsonObject := none
  provenance : Option JsonObject := none

/-- What an action returns: an id, and whether it was created. -/
structure EnsureResult where
  id : String
  created : Bool
  deriving DecidableEq, Repr

def ensureAccount (db : KgGraph) (accountId : String) : Except String KgGraph :=
  if "auth:".toList.isPrefixOf accountId.toList then
    .error "Auth-scoped account IDs are not valid KG accounts."
  else .ok { db with accounts := insert accountId db.accounts }

/-- The account of a request is ensured, if it has one. -/
def ensureCreator (db : KgGraph) : Option String → Except String KgGraph
  | some accountId => if accountId.isEmpty then .ok db else ensureAccount db accountId
  | none => .ok db

/-- An account is no node and no triple. -/
theorem ensureCreator_keeps {db db' : KgGraph} {accountId : Option String}
    (h : ensureCreator db accountId = .ok db') :
    db'.nodes = db.nodes ∧ db'.triples = db.triples := by
  unfold ensureCreator ensureAccount at h
  split at h
  · split at h
    · cases h
      exact ⟨rfl, rfl⟩
    · split at h <;> cases h
      exact ⟨rfl, rfl⟩
  · cases h
    exact ⟨rfl, rfl⟩

/-- A text is an error if PostgreSQL cannot hold it. -/
def checkText : Option String → Except String Unit
  | some s =>
    if '\x00' ∈ s.toList then .error "invalid byte sequence for encoding \"UTF8\": 0x00"
    else .ok ()
  | none => .ok ()

def createNodeId (input : EnsureNodeInput) : Except String String :=
  match input.dataHex <|> input.data with
  | some atomData =>
    if atomData.isEmpty then
      .error "Node id or atom data is required to create a protocol atom id."
    else .ok (ids.calculateAtomId atomData)
  | none => .error "Node id or atom data is required to create a protocol atom id."

/-- The row `ensureNodeWithCreation` inserts. -/
def ensuredNode (input : EnsureNodeInput) (now : ℤ) : NodeRow where
  rawType := input.rawType.asStr
  classificationType := input.classificationType
  data := input.data
  dataHex := input.dataHex
  dataResolved := input.dataResolved.getD ∅
  searchText := input.searchText.getD ""
  createdBy := input.createdBy
  createdAt := now
  updatedAt := now

def ensureNodeWithCreation (db : KgGraph) (input : EnsureNodeInput) (now : ℤ) :
    Except String (KgGraph × EnsureResult) := do
  let nodeId ← match input.id with
    | some id => if id.isEmpty then createNodeId ids input else normalizeProtocolTermId id "node.id"
    | none => createNodeId ids input
  let db ← ensureCreator db input.createdBy
  checkText input.data
  return ({ db with nodes := db.nodes.insertIfAbsent nodeId (ensuredNode input now) },
    ⟨nodeId, (db.nodes.lookup nodeId).isNone⟩)

def normalizeRef (ref : KgActionRef) (label : String) : Except String KgActionRef := do
  return { ref with id := ← normalizeProtocolTermId ref.id s!"{label}.id" }

def kgTripleId (subject predicate object : KgActionRef) : Except String String := do
  return ids.calculateTripleId (← normalizeProtocolTermId subject.id "subject.id")
    (← normalizeProtocolTermId predicate.id "predicate.id")
    (← normalizeProtocolTermId object.id "object.id")

/-- The row `ensureTripleWithCreation` inserts. -/
def ensuredTriple (input : EnsureTripleInput) (subject predicate object : KgActionRef)
    (now : ℤ) : TripleRow :=
  let source := input.source.getD "api"
  { subjectId := subject.id
    subjectType := subject.type
    predicateId := predicate.id
    predicateType := predicate.type
    objectId := object.id
    objectType := object.type
    edgeKind := input.edgeKind.getD "claim"
    source := some source
    sourceUri := input.sourceUri
    createdBy := input.createdBy
    metadata := input.metadata.getD ∅
    provenance := input.provenance.getD (.ofFields [("source", .string source)])
    createdAt := now
    updatedAt := now }

def ensureTripleWithCreation (db : KgGraph) (input : EnsureTripleInput) (now : ℤ) :
    Except String (KgGraph × EnsureResult) := do
  let subject ← normalizeRef input.subject "subject"
  let predicate ← normalizeRef input.predicate "predicate"
  let object ← normalizeRef input.object "object"
  let tripleId ← kgTripleId ids subject predicate object
  let db ← ensureCreator db input.createdBy
  return ({ db with
      triples := db.triples.insertIfAbsent tripleId
        (ensuredTriple input subject predicate object now) },
    ⟨tripleId, (db.triples.lookup tripleId).isNone⟩)

/-! ## Requests -/

def detectRawType (input : String) : KgNodeRawType :=
  let trimmed := jsTrim input
  let lower := trimmed.map Char.toLower
  if "http://".toList.isPrefixOf lower || "https://".toList.isPrefixOf lower then .httpUri
  else if "ipfs://".toList.isPrefixOf lower then .ipfsUri
  else if trimmed.head? = some '{' || trimmed.head? = some '[' then
    if JsonText.parses trimmed then .json else .string
  else .string

/-- What the API answers to a request it does not do. -/
structure ApiError where
  status : ℕ
  error : String
  message : Option String := none
  deriving DecidableEq, Repr

/-- An error that nothing catches. -/
def internalError : ApiError := ⟨500, "internal_error", none⟩

/-- Whether an error says that something is no id of a term. -/
def mentionsTermId (message : String) : Bool :=
  message.toList.tails.any fun cs => "protocol term id".toList.isPrefixOf cs

/-- The input of the action a request for an atom asks for. -/
def atomInput (accountId : Option String) (input : String) : EnsureNodeInput where
  rawType := detectRawType input
  classificationType := "Unknown"
  data := some input
  createdBy := accountId

/-- An input is refused if it is too long. -/
def checkLength (input : String) : Except ApiError Unit :=
  if 64000 < jsLength input then
    .error ⟨413, "input_too_large", some "input must be under 64KB"⟩
  else .ok ()

def postAtoms (db : KgGraph) (accountId : Option String) (body : JsonObject) (now : ℤ) :
    Except ApiError (KgGraph × EnsureResult) := do
  let input ← Result.okOr ((body.string? "input").filter fun input => !(jsTrim input).isEmpty)
    ⟨400, "invalid_input", some "body must be \x7b \"input\": string \x7d"⟩
  checkLength input
  (ensureNodeWithCreation ids db (atomInput accountId input) now).mapError fun _ => internalError

/-- A field of a request that is the id of a term. -/
def bodyTermId (body : JsonObject) (field : String) : Except ApiError String :=
  Result.okOr ((body.string? field).filter fun value => !(jsTrim value).isEmpty)
    ⟨400, "invalid_input", some s!"body must include {field} as a 32-byte protocol term id"⟩

/-- The input of the action a request for a triple asks for. -/
def tripleInput (accountId : Option String) (subjectId predicateId objectId : String) :
    EnsureTripleInput where
  subject := ⟨"node", subjectId⟩
  predicate := ⟨"node", predicateId⟩
  object := ⟨"node", objectId⟩
  createdBy := accountId
  source := some "api"

def postTriples (db : KgGraph) (accountId : Option String) (body : JsonObject) (now : ℤ) :
    Except ApiError (KgGraph × EnsureResult) := do
  let subjectId ← bodyTermId body "subject_id"
  let predicateId ← bodyTermId body "predicate_id"
  let objectId ← bodyTermId body "object_id"
  (ensureTripleWithCreation ids db (tripleInput accountId subjectId predicateId objectId)
      now).mapError fun message =>
    if mentionsTermId message then ⟨400, "invalid_term_id", some message⟩ else internalError

end Actions
