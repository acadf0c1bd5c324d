import IntuitionCore.Api.RateLimit
import IntuitionCore.Api.ReadModel

/-!
# The API

A request passes through four filters before its route answers it: preflights are answered
at once; a key that is presented is looked up, and the request is refused if there is no such
key; in gated mode it is refused if it has no key; and it is counted.

A key is presented as a bearer token, and only a text that starts with `Bearer ` and goes on
as the keys do is taken for one. Any other request has no key.
-/

namespace KgApi

/-! ## Keys -/

inductive ApiAuthMode where
  | openMode
  | publicRead
  | gated
  deriving DecidableEq, Repr

/-- The configuration. A limit that is no number is left out. -/
structure ApiConfig where
  allowedOrigins : List String := []
  authMode : ApiAuthMode := .publicRead
  rateLimitRpm : Option ℤ := some 120
  trustProxy : Bool := false
  atomSemanticReadsEnabled : Bool := false

def apiKeyPrefix : List Char := "ik_".toList

/-- The key that a header presents. -/
def bearerToken (authorizationHeader : Option String) : Option String := do
  let header ← authorizationHeader
  if "Bearer ".toList.isPrefixOf header.toList then
    let token := jsTrim (.ofList (header.toList.drop "Bearer ".length))
    if apiKeyPrefix.isPrefixOf token then some (.ofList token) else none
  else none

/-- The key of a token, if it is not revoked. -/
def findApiKey (sha256Hex : String → String) (db : KgDb) (token : String) : Option ApiKeyRow :=
  (db.apiKeys.lookup (sha256Hex token)).filter fun row => row.revokedAt.isNone

/-- The best-effort stamp of a key that is used. -/
def stampUsage (db : KgDb) (keyId : String) (now : ℤ) : KgDb :=
  { db with apiKeys := db.apiKeys.mapRows fun _ row =>
      if row.id = keyId then { row with lastUsedAt := some now } else row }

/-! ## Requests and responses -/

/-- The JSON of a request: none, `null`, or a value of some fields. -/
inductive RequestBody where
  | invalid
  | null
  | fields (body : JsonObject)

structure HttpRequest where
  method : String
  /-- The segments of the path. -/
  path : List String
  query : QueryParams := fun _ => none
  authorization : Option String := none
  origin : Option String := none
  forwardedFor : Option String := none
  remoteAddress : Option String := none
  body : RequestBody := .invalid

/-- What a response says. -/
inductive ApiBody (J : Type) where
  | empty
  | error (error : String) (message : Option String)
  | read (body : ReadBody J)
  | created (result : EnsureResult) (createdBy : Option String)

structure HttpResponse (J : Type) where
  status : ℕ
  body : ApiBody J
  /-- The headers of the rate limiter. -/
  rateLimit : Option RateLimitDecision := none
  retryAfter : Option ℕ := none

/-- What the API remembers. -/
structure ApiState where
  db : KgDb := {}
  windows : RateLimiter := ∅

/-- What the API relies on: how ids and hashes are computed, how atoms are presented, and the
middleware that answers preflights. -/
structure ApiEnv (J : Type) where
  ids : ProtocolIds
  sha256Hex : String → String
  lower : Char → Char
  presentation : Presentation J
  cors : ApiConfig → HttpRequest → Option (HttpResponse J)

section App

variable {J : Type} (env : ApiEnv J) (config : ApiConfig)

def refusal (status : ℕ) (error : String) (message : Option String := none) : HttpResponse J :=
  { status := status, body := .error error message }

/-! ## The filters -/

def isGatedPublicPath (path : List String) : Bool :=
  path = ["health"] ∨ path = ["api", "schema"]

/-- The key that is presented, if it is one. -/
def authenticate (db : KgDb) (req : HttpRequest) : Except (HttpResponse J) (Option ApiKeyRow) :=
  match bearerToken req.authorization with
  | none => .ok none
  | some token =>
    match findApiKey env.sha256Hex db token with
    | none => .error (refusal 401 "invalid_api_key")
    | some key => .ok (some key)

/-- In gated mode everything requires a key, except what is public. -/
def gate (req : HttpRequest) (identity : Option ApiKeyRow) :
    Except (HttpResponse J) (Option ApiKeyRow) :=
  if config.authMode = .gated ∧ isGatedPublicPath req.path = false ∧ identity.isNone then
    .error (refusal 401 "api_key_required")
  else .ok identity

/-- **Who a request is from**: a key, or nobody; or the answer that it gets instead. -/
def middleware (db : KgDb) (req : HttpRequest) : Except (HttpResponse J) (Option ApiKeyRow) :=
  match env.cors config req with
  | some response => .error response
  | none => authenticate env db req >>= gate config req

/-- The address that requests without a key are counted for. -/
def anonymousBucket (req : HttpRequest) : String :=
  if config.trustProxy then
    (req.forwardedFor.map fun header =>
      .ofList (jsTrim (.ofList (header.toList.takeWhile (· ≠ ','))))).getD "unknown"
  else req.remoteAddress.getD "unknown"

/-- Count a request for its key, or for its address. -/
def checkRate (windows : RateLimiter) (nowMs : ℕ) (req : HttpRequest)
    (identity : Option ApiKeyRow) : RateLimiter × RateLimitDecision :=
  let bucket := match identity with
    | some key => "key:" ++ key.id
    | none => "ip:" ++ anonymousBucket config req
  let limit := match identity.bind ApiKeyRow.rateLimitRpm with
    | some limit => some limit
    | none => config.rateLimitRpm
  windows.check nowMs bucket limit

/-! ## The routes -/

/-- Who may write, by the mode. -/
def requireWriter (identity : Option ApiKeyRow) :
    Except (HttpResponse J) (Option ApiKeyRow) :=
  if config.authMode = .openMode then .ok identity
  else
    match identity with
    | none => .error (refusal 401 "api_key_required")
    | some key =>
      if key.canWrite then .ok (some key) else .error (refusal 403 "api_key_not_writable")

def isWritePath (path : List String) : Bool := path = ["api", "atoms"] ∨ path = ["api", "triples"]

/-- `POST /api/atoms` and `POST /api/triples`: what is created is attributed to the account of
the key. -/
def create (db : KgDb) (req : HttpRequest) (writer : Option ApiKeyRow) (now : ℤ) :
    KgDb × HttpResponse J :=
  let accountId := writer.map ApiKeyRow.accountId
  match req.body with
  | .invalid => (db, refusal 400 "invalid_json")
  | .null => (db, refusal 500 "internal_error")
  | .fields body =>
    let answer := if req.path = ["api", "atoms"] then postAtoms env.ids db.graph accountId body now
      else postTriples env.ids db.graph accountId body now
    match answer with
    | .error error => (db, refusal error.status error.error error.message)
    | .ok (graph, result) =>
      ({ db with graph := graph },
        { status := if result.created then 201 else 200, body := .created result accountId })

/-- The route of a request. Requests for the head are answered as those that read. -/
def route (db : KgDb) (req : HttpRequest) (identity : Option ApiKeyRow) (now : ℤ) :
    KgDb × HttpResponse J :=
  if req.method = "POST" ∧ isWritePath req.path then
    match requireWriter config identity with
    | .error response => (db, response)
    | .ok writer => create env db req writer now
  else if req.method = "GET" ∨ req.method = "HEAD" then
    let reply := respond env.presentation env.lower config.atomSemanticReadsEnabled db req.path
      req.query
    (db, { status := reply.status, body := .read reply.body })
  else (db, { status := 404, body := .read .noRoute })

/-- A request that was admitted is counted, and then answered by its route. -/
def handle (s : ApiState) (req : HttpRequest) (identity : Option ApiKeyRow) (nowMs : ℕ) :
    ApiState × HttpResponse J :=
  if req.path = ["health"] then
    let answer := route env config s.db req identity nowMs
    ({ s with db := answer.1 }, answer.2)
  else
    let counted := checkRate config s.windows nowMs req identity
    let headers := if counted.2.limit.any (0 < ·) then some counted.2 else none
    if counted.2.allowed then
      let answer := route env config s.db req identity nowMs
      (⟨answer.1, counted.1⟩, { answer.2 with rateLimit := headers })
    else
      ({ s with windows := counted.1 },
        { refusal 429 "rate_limited" with
          rateLimit := headers, retryAfter := some counted.2.retryAfterSeconds })

/-- **The API answers a request.** A key that is used is stamped. -/
def serve (s : ApiState) (req : HttpRequest) (nowMs : ℕ) : ApiState × HttpResponse J :=
  match middleware env config s.db req with
  | .error response => (s, response)
  | .ok none => handle env config s req none nowMs
  | .ok (some key) =>
    handle env config { s with db := stampUsage s.db key.id nowMs } req (some key) nowMs

end App

end KgApi
