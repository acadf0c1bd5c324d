import IntuitionCore.Identity.Parsing

/-!
# What a classification leaves

The worker of the second stage classifies what the parse of a node has left. An identity is
classified by the registry of IIDs, where the worker may read them; a structured document by
its type; anything else by a runtime, which is asked with the text or the URL. The result is
stored, with the rungs that the node may be known by. The primary one becomes the IID of
the node, if the node had none when the worker claimed it.

The registry, the ladder of rungs and the runtime are injected or packages of their own, and
what the platform says of a URL or of upper and lower case is not modelled, so all these are
arbitrary. What they are relied on is to say nothing blank.
-/

namespace AtomClassification

open IdentityContract AtomParsing

/-! ## Types -/

/-- Where the URL of a node was found. -/
inductive StructuredTargetSource where
  | structuredDocument
  | structuredDocumentSameAs
  | remoteFinalUrl
  | rawInput
  deriving DecidableEq, Repr

structure StructuredTarget where
  url : Option String := none
  source : Option StructuredTargetSource := none
  deriving DecidableEq, Repr

inductive ClassificationStatus where
  | recognized
  | unknownObject
  | notApplicable
  deriving DecidableEq, Repr

structure WorkerClassificationResult where
  status : ClassificationStatus
  source : String
  provider : Option String := none
  fallbackStage : Option String := none
  format : Option String := none
  topLevelType : Option String := none
  schemaType : Option String := none
  category : Option String := none
  knownType : Option Bool := none
  targetUrl : Option String := none
  targetSource : Option StructuredTargetSource := none
  identity : Option NormalizedAtomIdentity := none
  identityDecision : Option IdentityClassificationDecision := none
  providerPlan : Option IdentityProviderPlan := none
  identityRungs : Option IdentityRungRecord := none

structure ClassificationPlan where
  classificationResult : WorkerClassificationResult
  runtimeInput : Option String
  targetUrl : Option String
  targetSource : Option StructuredTargetSource
  usesStructuredDocument : Bool

structure JsonLdTypeDefinition where
  type : String
  category : String
  aliases : List String := []
  deriving DecidableEq, Repr

/-- What the registry says of an identity. -/
structure IidSemanticResolution where
  identityDecision : IdentityClassificationDecision
  providerPlan : IdentityProviderPlan

/-- An atom that the runtime has resolved. -/
structure ResolvedAtom where
  schemaType : Option String := none
  category : Option String := none
  canonicalId : Option String := none
  identifiers : Option KgJson := none
  provider : Option KgJson := none
  fallbackStage : Option KgJson := none

/-- A canonical classification, with the provider that its `meta` names. -/
structure CanonicalEnvelope where
  type : String
  provider : Option KgJson := none

/-- What the runtime answers, as far as it is looked at. -/
structure RuntimeClassification where
  atom : Option ResolvedAtom := none
  classification : Option CanonicalEnvelope := none
  publishable : Option CanonicalEnvelope := none
  platformResolver : Option KgJson := none
  domain : Option KgJson := none

/-- What the worker is given, and what the platform does. -/
structure ClassificationModules where
  isHttpUrl : String → Bool
  toLowerCase : String → String
  typeDefinitions : List JsonLdTypeDefinition
  resolve : NormalizedAtomIdentity → IidSemanticResolution
  projectIdentityRungs : IdentityRungInput → IdentityRungRecord

/-! ## URLs -/

variable (m : ClassificationModules)

/-- A text that is the URL of a page, without the spaces around it. -/
def httpUrl? (s : String) : Option String :=
  if trim s ≠ "" ∧ m.isHttpUrl (trim s) then some (trim s) else none

mutual

/-- The first text of a value that is the URL of a page. -/
def resolveFirstHttpUrl : KgJson → Option String
  | .string s => httpUrl? m s
  | .array values => resolveFirstHttpUrlOf values
  | _ => none

def resolveFirstHttpUrlOf : List KgJson → Option String
  | [] => none
  | value :: values => resolveFirstHttpUrl value <|> resolveFirstHttpUrlOf values

end

def resolveStructuredDocumentTarget (document : Option StructuredDocument) : StructuredTarget :=
  match (document.elim [] (·.urlCandidates)).find? fun candidate => m.isHttpUrl candidate.url with
  | some candidate =>
    { url := candidate.url
      source := some (if candidate.field = some "sameAs" then .structuredDocumentSameAs
        else .structuredDocument) }
  | none =>
    let data := document.bind (·.data)
    match (data.bind (KgJson.get? "sameAs")).bind (resolveFirstHttpUrl m) with
    | some url => { url, source := some .structuredDocumentSameAs }
    | none =>
      match (data.bind (KgJson.get? "url")).bind (resolveFirstHttpUrl m) with
      | some url => { url, source := some .structuredDocument }
      | none => {}

def resolveFallbackUrl (parseResult : Option CompactParseResult) (rawInput : Option String) :
    Option String := do
  let parseResult ← parseResult
  if parseResult.kind ≠ .url then none
  else
    (truthy (parseResult.remote.bind (·.finalUrl))).filter m.isHttpUrl
      <|> (truthy parseResult.canonicalId).filter m.isHttpUrl
      <|> rawInput.bind (httpUrl? m)

def resolveFallbackTarget (parseResult : Option CompactParseResult) (rawInput : Option String) :
    StructuredTarget :=
  match truthy (resolveFallbackUrl m parseResult rawInput) with
  | none => {}
  | some url =>
    if (parseResult.bind (·.remote)).bind (·.finalUrl) = some url then
      { url, source := some .remoteFinalUrl }
    else { url, source := some .rawInput }

/-! ## Types of documents -/

/-- The part of a text after the last separator. -/
def lastPart (separator : Char) (cs : List Char) : List Char :=
  ((cs.splitOn separator).getLast?).getD cs

/-- The name of a type, without its namespace. -/
def normalizeSchemaType (value : Option String) : Option String :=
  value.bind fun value =>
    let name := trim (String.ofList
      (lastPart ':' (lastPart '/' (lastPart '#' (jsTrim value)))))
    if jsTrim value ≠ [] ∧ name ≠ "" then some name else none

def normalizeLookupKey (value : String) : String :=
  ((normalizeSchemaType (some value)).map m.toLowerCase).getD ""

def findTypeDefinition (type : String) : Option JsonLdTypeDefinition :=
  m.typeDefinitions.find? fun definition =>
    normalizeLookupKey m definition.type = normalizeLookupKey m type
      ∨ ∃ name ∈ definition.aliases, normalizeLookupKey m name = normalizeLookupKey m type

/-! ## Classifications -/

def deriveClassificationPlan (parseResult : Option CompactParseResult) (rawInput : Option String) :
    ClassificationPlan :=
  let fallbackTarget := resolveFallbackTarget m parseResult rawInput
  match parseResult.bind (·.structuredDocument) with
  | some document =>
    let normalizedType := normalizeSchemaType document.schemaType
    let definition := normalizedType.bind (findTypeDefinition m)
    let documentTarget := resolveStructuredDocumentTarget m (some document)
    let targetUrl := documentTarget.url <|> fallbackTarget.url
    let targetSource := documentTarget.source <|> fallbackTarget.source
    { classificationResult :=
        { status :=
            if document.topLevelType = "object" then
              if definition.isSome then .recognized else .unknownObject
            else .notApplicable
          source := document.source
          format := document.format
          topLevelType := document.topLevelType
          schemaType := normalizedType
          category := definition.map (·.category)
          knownType := definition.isSome
          targetUrl := truthy targetUrl
          targetSource }
      runtimeInput := none
      targetUrl
      targetSource
      usesStructuredDocument := true }
  | none =>
    { classificationResult :=
        { status := .notApplicable, source := "raw_input", targetUrl := fallbackTarget.url
          targetSource := fallbackTarget.source }
      runtimeInput := fallbackTarget.url <|> parseResult.map (·.normalizedInput) <|> rawInput
      targetUrl := fallbackTarget.url
      targetSource := fallbackTarget.source
      usesStructuredDocument := false }

/-- The first of some values that is a text and not blank, unless it is too long. -/
def firstProvenanceString (limit : ℕ) (values : List (Option KgJson)) : Option String :=
  match (values.filterMap fun value => value.bind KgJson.string?).find? fun s => NotBlank s with
  | some s => if jsLength (trim s) ≤ limit then some (trim s) else none
  | none => none

/-- The provider of an answer. -/
def classificationProvider (result : RuntimeClassification) : Option String :=
  firstProvenanceString 128 [result.atom.bind (·.provider),
    result.platformResolver.bind (KgJson.get? "domain"),
    (result.publishable <|> result.classification).bind (·.provider), result.domain]

def classificationFallbackStage (result : RuntimeClassification) : Option String :=
  firstProvenanceString 64 [result.atom.bind (·.fallbackStage),
    result.platformResolver.bind (KgJson.get? "fallbackStage")]

/-- The texts among the identifiers of an atom. -/
def stringIdentifiers (identifiers : Option KgJson) (rung : String) : Option String :=
  (identifiers.bind (KgJson.get? rung)).bind KgJson.string?

/-- What the runtime has resolved: an atom, or the type of a classification. -/
def resolvedAtom (result : RuntimeClassification) : Option ResolvedAtom :=
  result.atom <|> result.classification.map fun envelope => { schemaType := some envelope.type }

def deriveClassificationResultFromRuntime (classification : RuntimeClassification)
    (useLadder : Bool) (targetUrl : Option String)
    (targetSource : Option StructuredTargetSource) : WorkerClassificationResult :=
  match resolvedAtom classification with
  | none =>
    { status := .notApplicable, source := "raw_input", targetUrl, targetSource }
  | some resolved =>
    let normalizedType := normalizeSchemaType resolved.schemaType
    { status := .recognized
      source := "raw_input"
      provider := classificationProvider classification
      fallbackStage := classificationFallbackStage classification
      schemaType := normalizedType
      category := truthy resolved.category
      knownType := (normalizedType.bind (findTypeDefinition m)).isSome
      targetUrl
      targetSource
      identityRungs :=
        if useLadder ∧ (normalizedType.isSome ∨ (truthy resolved.category).isSome) then
          some (m.projectIdentityRungs {
            schemaType := normalizedType
            category := resolved.category
            providerCanonicalId := resolved.canonicalId
            canonicalUrl := targetUrl
            identifiers := stringIdentifiers resolved.identifiers })
        else none }

def deriveIidClassificationResult (identity : NormalizedAtomIdentity) :
    WorkerClassificationResult :=
  let resolution := m.resolve identity
  let decision := resolution.identityDecision
  { status := if decision.status = .classified then .recognized else .notApplicable
    source := "iid-registry"
    schemaType := truthy decision.schemaType
    category := truthy decision.category
    knownType := decide (decision.status = .classified)
    identity
    identityDecision := decision
    providerPlan := resolution.providerPlan
    identityRungs :=
      if (truthy decision.category).isSome ∨ (truthy decision.schemaType).isSome then
        some (m.projectIdentityRungs {
          identity := identity.canonical
          category := decision.category
          schemaType := decision.schemaType })
      else none }

def resolveClassificationType (result : WorkerClassificationResult) : String :=
  (result.schemaType <|> result.category).getD "Unknown"

/-! ## The worker -/

/-- What comes of a node that was claimed. -/
inductive ClassificationOutcome where
  | skipped
  | completed (result : WorkerClassificationResult)

/-- A projection is stored only if it is well formed. -/
def admitRungs (result : WorkerClassificationResult) : WorkerClassificationResult :=
  { result with
    identityRungs := result.identityRungs.filter fun rungs =>
      isIdentityRungProjection (identityRungs.write rungs) }

/-- The rungs of a document are those of its type. -/
def projectDocumentRungs (iidReadEnabled : Bool) (plan : ClassificationPlan)
    (result : WorkerClassificationResult) : WorkerClassificationResult :=
  if iidReadEnabled = true ∧ plan.usesStructuredDocument = true
      ∧ ((truthy result.category).isSome ∨ (truthy result.schemaType).isSome) then
    { result with
      identityRungs := some (m.projectIdentityRungs {
        schemaType := result.schemaType
        category := result.category
        canonicalUrl := plan.targetUrl }) }
  else result

/-- What the worker makes of a node, if the runtime gives an answer when it is asked. -/
def classifyNode (iidReadEnabled : Bool) (parseResult : Option CompactParseResult)
    (rawInput : Option String) (runtime : String → RuntimeClassification) :
    ClassificationOutcome :=
  let plan := deriveClassificationPlan m parseResult rawInput
  let identity := parseResult.bind fun r =>
    if iidReadEnabled = true ∧ r.kind = .iid then r.identity else none
  match identity with
  | some identity =>
    .completed (admitRungs (projectDocumentRungs m iidReadEnabled plan
      (deriveIidClassificationResult m identity)))
  | none =>
    if plan.usesStructuredDocument then
      .completed (admitRungs (projectDocumentRungs m iidReadEnabled plan
        plan.classificationResult))
    else
      match truthy plan.runtimeInput with
      | none => .skipped
      | some runtimeInput =>
        .completed (admitRungs (projectDocumentRungs m iidReadEnabled plan
          (deriveClassificationResultFromRuntime m (runtime runtimeInput) iidReadEnabled
            plan.targetUrl plan.targetSource)))

/-- What is set of a node when its classification completes. It gets the primary IID if it had none
when it was claimed. -/
def promotedFields (claimedIid : Option String) (result : WorkerClassificationResult) :
    NodeProcessingPromotedFields where
  classificationType := some (resolveClassificationType result)
  iid := if claimedIid = none then (result.identityRungs.bind (·.primary)).map (·.iid) else none

/-! ## What is stored -/

def statusStr : ClassificationStatus → String
  | .recognized => "recognized"
  | .unknownObject => "unknown_object"
  | .notApplicable => "not_applicable"

def statuses : List (String × ClassificationStatus) :=
  [("recognized", .recognized), ("unknown_object", .unknownObject),
    ("not_applicable", .notApplicable)]

theorem lookup_statuses (s : ClassificationStatus) : statuses.lookup (statusStr s) = some s := by
  cases s <;> rfl

def status : Codec KgJson ClassificationStatus := oneOf statusStr statuses lookup_statuses

def targetSourceStr : StructuredTargetSource → String
  | .structuredDocument => "structured_document"
  | .structuredDocumentSameAs => "structured_document_same_as"
  | .remoteFinalUrl => "remote_final_url"
  | .rawInput => "raw_input"

def targetSources : List (String × StructuredTargetSource) :=
  [("structured_document", .structuredDocument),
    ("structured_document_same_as", .structuredDocumentSameAs),
    ("remote_final_url", .remoteFinalUrl), ("raw_input", .rawInput)]

theorem lookup_targetSources (s : StructuredTargetSource) :
    targetSources.lookup (targetSourceStr s) = some s := by
  cases s <;> rfl

def targetSource : Codec KgJson StructuredTargetSource :=
  oneOf targetSourceStr targetSources lookup_targetSources

/-- The fields of a result. -/
def classificationFields (r : WorkerClassificationResult) : List (String × Option KgJson) :=
  [("status", status.required.write r.status),
    ("source", text.required.write r.source), ("provider", text.optional.write r.provider),
    ("fallbackStage", text.optional.write r.fallbackStage),
    ("format", text.optional.write r.format),
    ("topLevelType", text.optional.write r.topLevelType),
    ("schemaType", text.optional.write r.schemaType),
    ("category", text.optional.write r.category),
    ("knownType", boolean.optional.write r.knownType),
    ("targetUrl", text.optional.write r.targetUrl),
    ("targetSource", targetSource.optional.write r.targetSource),
    ("identity", identity.optional.write r.identity),
    ("identityDecision", identityDecision.optional.write r.identityDecision),
    ("providerPlan", providerPlan.optional.write r.providerPlan),
    ("identityRungs", identityRungs.optional.write r.identityRungs)]

theorem nodup_classificationFields (r : WorkerClassificationResult) :
    ((classificationFields r).map Prod.fst).Nodup := by
  simp [classificationFields]

def workerClassificationResult : Codec KgJson WorkerClassificationResult where
  write r := object (classificationFields r)
  read v := do
    let status ← status.required.read (v.get? "status")
    let source ← text.required.read (v.get? "source")
    let provider ← text.optional.read (v.get? "provider")
    let fallbackStage ← text.optional.read (v.get? "fallbackStage")
    let format ← text.optional.read (v.get? "format")
    let topLevelType ← text.optional.read (v.get? "topLevelType")
    let schemaType ← text.optional.read (v.get? "schemaType")
    let category ← text.optional.read (v.get? "category")
    let knownType ← boolean.optional.read (v.get? "knownType")
    let targetUrl ← text.optional.read (v.get? "targetUrl")
    let targetSource ← targetSource.optional.read (v.get? "targetSource")
    let identity ← identity.optional.read (v.get? "identity")
    let identityDecision ← identityDecision.optional.read (v.get? "identityDecision")
    let providerPlan ← providerPlan.optional.read (v.get? "providerPlan")
    let identityRungs ← identityRungs.optional.read (v.get? "identityRungs")
    return {
      status, source, provider, fallbackStage, format, topLevelType, schemaType, category
      knownType, targetUrl, targetSource, identity, identityDecision, providerPlan
      identityRungs }
  read_write r := by simp [classificationFields, get?_object, List.lookup_cons]

/-- A field of a result that is stored. -/
theorem get?_workerClassificationResult (r : WorkerClassificationResult) (key : String) :
    (workerClassificationResult.write r).get? key = ((classificationFields r).lookup key).join :=
  get?_object (nodup_classificationFields r) key

/-- A value that is taken for the result of a classification, whatever its rungs are. -/
def isClassificationResult (v : KgJson) : Bool :=
  isRecord v && (v.get? "status").any (isOneOf statuses) && (v.get? "source").any isNonEmptyString
    && (v.get? "identity").all isNormalizedAtomIdentity
    && (v.get? "identityDecision").all isIdentityClassificationDecision
    && (v.get? "providerPlan").all isIdentityProviderPlan

/-- An object without a field. -/
def omitField (key : String) : KgJson → KgJson
  | .object fields => .object (fields.filter fun f => f.1 ≠ key)
  | v => v

/-- Malformed rungs are dropped; any other malformed field makes the value unusable. -/
def toClassificationResultMaybe (value : Option KgJson) : Option KgJson :=
  (value.filter isClassificationResult).map fun v =>
    if (v.get? "identityRungs").all isIdentityRungProjection then v
    else omitField "identityRungs" v

/-- What the next worker finds in the column. -/
def readClassificationResult (value : Option KgJson) : Option WorkerClassificationResult :=
  (toClassificationResultMaybe value).bind workerClassificationResult.read

/-! ## What is classified is read -/

/-- No text that is looked at is blank. -/
structure ClassificationIsWellFormed (r : WorkerClassificationResult) : Prop where
  source : NotBlank r.source
  identity : ∀ i ∈ r.identity, IdentityIsWellFormed i
  identityDecision : ∀ d ∈ r.identityDecision, DecisionIsWellFormed d
  providerPlan : ∀ p ∈ r.providerPlan, PlanIsWellFormed p

/-- The registry says nothing blank. -/
structure ClassificationModules.IsLawful : Prop where
  identityDecision : ∀ i, DecisionIsWellFormed (m.resolve i).identityDecision
  providerPlan : ∀ i, PlanIsWellFormed (m.resolve i).providerPlan

theorem isClassificationResult_write {r : WorkerClassificationResult} :
    isClassificationResult (workerClassificationResult.write r) = true
      ↔ ClassificationIsWellFormed r := by
  have hstatus : (workerClassificationResult.write r).get? "status"
      = status.required.write r.status := get?_workerClassificationResult r "status"
  have hsource : (workerClassificationResult.write r).get? "source"
      = text.required.write r.source := get?_workerClassificationResult r "source"
  have hidentity : (workerClassificationResult.write r).get? "identity"
      = identity.optional.write r.identity := get?_workerClassificationResult r "identity"
  have hdecision : (workerClassificationResult.write r).get? "identityDecision"
      = identityDecision.optional.write r.identityDecision :=
    get?_workerClassificationResult r "identityDecision"
  have hplan : (workerClassificationResult.write r).get? "providerPlan"
      = providerPlan.optional.write r.providerPlan :=
    get?_workerClassificationResult r "providerPlan"
  have hknown : (status.required.write r.status).any (isOneOf statuses) = true :=
    (guards_oneOf (h := lookup_statuses)).required.accepts_write r.status |>.mpr trivial
  simp only [isClassificationResult, hstatus, hsource, hidentity, hdecision, hplan, hknown,
    Bool.and_eq_true, guards_nonEmptyString.required.accepts_write,
    guards_identity.optional.accepts_write, guards_identityDecision.optional.accepts_write,
    guards_providerPlan.optional.accepts_write, and_assoc]
  constructor
  · rintro ⟨-, -, hsource, hidentity, hdecision, hplan⟩
    exact ⟨hsource, hidentity, hdecision, hplan⟩
  · rintro ⟨hsource, hidentity, hdecision, hplan⟩
    exact ⟨rfl, trivial, hsource, hidentity, hdecision, hplan⟩

/-- **What the next worker makes of the column**, if the rungs were admitted: it finds what was
stored, unless a text that is looked at is blank. -/
theorem readClassificationResult_write {r r' : WorkerClassificationResult}
    (hrungs : ∀ rungs ∈ r.identityRungs, RungsAreWellFormed rungs) :
    readClassificationResult (some (workerClassificationResult.write r)) = some r'
      ↔ r' = r ∧ ClassificationIsWellFormed r := by
  have hadmitted : ((workerClassificationResult.write r).get? "identityRungs").all
      isIdentityRungProjection = true := by
    have hget : (workerClassificationResult.write r).get? "identityRungs"
        = identityRungs.optional.write r.identityRungs :=
      get?_workerClassificationResult r "identityRungs"
    rw [hget]
    exact (guards_identityRungs.optional.accepts_write r.identityRungs).mpr hrungs
  rw [← isClassificationResult_write]
  by_cases h : isClassificationResult (workerClassificationResult.write r) = true
  · have hsome : toClassificationResultMaybe (some (workerClassificationResult.write r))
        = some (workerClassificationResult.write r) := by
      rw [toClassificationResultMaybe, Option.filter_some, if_pos h, Option.map_some,
        if_pos hadmitted]
    rw [readClassificationResult, hsome, Option.bind_some, Codec.read_write, and_iff_left h,
      Option.some_inj, eq_comm]
  · have hnone : toClassificationResultMaybe (some (workerClassificationResult.write r))
        = none := by
      rw [toClassificationResultMaybe, Option.filter_some, if_neg h, Option.map_none]
    rw [readClassificationResult, hnone, Option.bind_none]
    exact iff_of_false (fun heq => Option.some_ne_none _ heq.symm) fun hr => h hr.2

variable {m} {iidReadEnabled : Bool} {parseResult : Option CompactParseResult}
  {rawInput : Option String} {runtime : String → RuntimeClassification}
  {r : WorkerClassificationResult}

/-- The identity that a classification is about. -/
def classifiedIdentity (iidReadEnabled : Bool) (parseResult : Option CompactParseResult) :
    Option NormalizedAtomIdentity :=
  parseResult.bind fun r => if iidReadEnabled = true ∧ r.kind = .iid then r.identity else none

/-- The rungs of a result that is stored are well formed. -/
theorem rungsAreWellFormed_admitRungs {rungs : IdentityRungRecord}
    (h : rungs ∈ (admitRungs r).identityRungs) : RungsAreWellFormed rungs := by
  obtain ⟨-, hadmitted⟩ := Option.filter_eq_some_iff.mp h
  exact (guards_identityRungs.accepts_write rungs).mp hadmitted

/-- **What a classification says** of a node: of its identity, what the registry says. -/
structure ClassifiedAs (m : ClassificationModules) (of : Option NormalizedAtomIdentity)
    (document : Option StructuredDocument) (r : WorkerClassificationResult) : Prop where
  identity : r.identity = of
  identityDecision : r.identityDecision = of.map fun i => (m.resolve i).identityDecision
  providerPlan : r.providerPlan = of.map fun i => (m.resolve i).providerPlan
  source : r.source = "raw_input" ∨ r.source = "iid-registry" ∨ ∃ d ∈ document, r.source = d.source

/-- The rungs of a result have no part in it. -/
theorem ClassifiedAs.admitRungs {of : Option NormalizedAtomIdentity}
    {document : Option StructuredDocument} (h : ClassifiedAs m of document r)
    (plan : ClassificationPlan) : ClassifiedAs m of document
      (AtomClassification.admitRungs (projectDocumentRungs m iidReadEnabled plan r)) := by
  unfold projectDocumentRungs
  split <;> exact ⟨h.identity, h.identityDecision, h.providerPlan, h.source⟩

theorem classifiedAs_identity (i : NormalizedAtomIdentity)
    (document : Option StructuredDocument) :
    ClassifiedAs m (some i) document (deriveIidClassificationResult m i) :=
  ⟨rfl, rfl, rfl, .inr (.inl rfl)⟩

theorem classifiedAs_fromRuntime (classification : RuntimeClassification) (useLadder : Bool)
    (targetUrl : Option String) (targetSource : Option StructuredTargetSource)
    (document : Option StructuredDocument) :
    ClassifiedAs m none document (deriveClassificationResultFromRuntime m classification useLadder
      targetUrl targetSource) := by
  unfold deriveClassificationResultFromRuntime
  split <;> exact ⟨rfl, rfl, rfl, .inl rfl⟩

theorem classifiedAs_plan : ClassifiedAs m none (parseResult.bind (·.structuredDocument))
    (deriveClassificationPlan m parseResult rawInput).classificationResult := by
  unfold deriveClassificationPlan
  split
  · next document hdocument =>
    exact ⟨rfl, rfl, rfl, .inr (.inr ⟨document, hdocument, rfl⟩)⟩
  · exact ⟨rfl, rfl, rfl, .inl rfl⟩

/-- **What comes of a node that is classified.** -/
theorem classifyNode_completed
    (h : classifyNode m iidReadEnabled parseResult rawInput runtime = .completed r) :
    ClassifiedAs m (classifiedIdentity iidReadEnabled parseResult)
        (parseResult.bind (·.structuredDocument)) r
      ∧ ∀ rungs ∈ r.identityRungs, RungsAreWellFormed rungs := by
  have hidentity : classifiedIdentity iidReadEnabled parseResult
      = parseResult.bind fun r =>
        if iidReadEnabled = true ∧ r.kind = .iid then r.identity else none := rfl
  unfold classifyNode at h
  simp only [← hidentity] at h
  split at h
  · next identity heq =>
    cases h
    refine ⟨?_, fun rungs hrungs => rungsAreWellFormed_admitRungs hrungs⟩
    rw [heq]
    exact (classifiedAs_identity identity _).admitRungs _
  · next heq =>
    rw [heq]
    split at h
    · cases h
      exact ⟨classifiedAs_plan.admitRungs _,
        fun rungs hrungs => rungsAreWellFormed_admitRungs hrungs⟩
    · split at h
      · cases h
      · cases h
        exact ⟨(classifiedAs_fromRuntime _ _ _ _ _).admitRungs _,
          fun rungs hrungs => rungsAreWellFormed_admitRungs hrungs⟩

/-- **What is classified is read**: the worker of the last stage finds the classification of a
parse that it could read itself, unless a document names a blank source. -/
theorem readClassificationResult_classify (hlawful : m.IsLawful)
    (hparse : ∀ p ∈ parseResult, CompactIsWellFormed p)
    (h : classifyNode m iidReadEnabled parseResult rawInput runtime = .completed r)
    {r' : WorkerClassificationResult} :
    readClassificationResult (some (workerClassificationResult.write r)) = some r'
      ↔ r' = r ∧ NotBlank r.source := by
  obtain ⟨hclassified, hrungs⟩ := classifyNode_completed h
  rw [readClassificationResult_write hrungs]
  refine and_congr_right' ⟨ClassificationIsWellFormed.source, fun hsource => ⟨hsource, ?_, ?_, ?_⟩⟩
  · intro i hi
    rw [hclassified.identity] at hi
    obtain ⟨p, hp, hi⟩ := Option.bind_eq_some_iff.mp hi
    obtain ⟨-, hi⟩ := Option.ite_none_right_eq_some.mp hi
    exact (hparse p hp).identity i hi
  · intro d hd
    rw [hclassified.identityDecision] at hd
    obtain ⟨i, -, rfl⟩ := Option.map_eq_some_iff.mp hd
    exact hlawful.identityDecision i
  · intro p hp
    rw [hclassified.providerPlan] at hp
    obtain ⟨i, -, rfl⟩ := Option.map_eq_some_iff.mp hp
    exact hlawful.providerPlan i

end AtomClassification
