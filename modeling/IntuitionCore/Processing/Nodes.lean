import IntuitionCore.Library.Result
import IntuitionCore.Library.Table
import Mathlib.Logic.Function.Basic

/-!
# How nodes are processed

A node of the KG database goes through three stages: it is parsed, classified and
enriched. Each stage has its own columns in the row of the node: a status, a count of
attempts, a lease, an error and a result. A worker claims a stage for some time under
a run id, which is kept in a JSON column that the three stages share, and reports the
outcome for that run only. Operators put stages back into the queue, and a sweep ends
the stages whose workers have died.

These are the statements, each as a condition on the row and a patch of it. Times are
in milliseconds; ids of nodes are normal.
-/

/-- A JSON value. -/
inductive KgJson where
  | null
  | boolean (b : Bool)
  | number (n : ℤ)
  | string (s : String)
  | array (values : List KgJson)
  | object (fields : List (String × KgJson))

namespace KgJson

/-- A field of an object. -/
def get? (key : String) : KgJson → Option KgJson
  | .object fields => fields.lookup key
  | _ => none

/-- The text of a value that is a string. -/
def string? : KgJson → Option String
  | .string s => some s
  | _ => none

/-- The number that some digits stand for. -/
def digits? (cs : List Char) : Option ℕ :=
  if cs ≠ [] ∧ cs.all Char.isDigit then some (Nat.ofDigitChars 10 cs 0) else none

/-- The integer that a value is cast to, if its text consists of digits. The text of a
negative number does not, nor does that of an array or of an object. -/
def integer? : KgJson → Option ℕ
  | .string s => digits? s.toList
  | .number (.ofNat n) => some n
  | _ => none

end KgJson

/-- A stage of the processing of a node. -/
inductive NodeProcessingStage where
  | parse
  | classification
  | enrichment
  deriving DecidableEq, Repr

/-- The status of a stage. -/
inductive NodeProcessingStatus where
  | pending
  | processing
  | completed
  | failed
  | skipped
  deriving DecidableEq, Repr

/-- An error that a stage ended with. -/
structure NodeProcessingError where
  code : String
  message : String
  retriable : Bool
  observedAt : Option ℕ := none
  details : Option KgJson := none

namespace NodeProcessingStage

/-- The stages, in order. -/
def nodeProcessingStages : List NodeProcessingStage := [parse, classification, enrichment]

def asStr : NodeProcessingStage → String
  | parse => "parse"
  | classification => "classification"
  | enrichment => "enrichment"

/-- The stages that come after a stage. -/
def downstreamStages (stage : NodeProcessingStage) : List NodeProcessingStage :=
  nodeProcessingStages.drop (nodeProcessingStages.idxOf stage + 1)

def workerIdMetaKey : NodeProcessingStage → String
  | parse => "parseWorkerId"
  | classification => "classificationWorkerId"
  | enrichment => "enrichmentWorkerId"

def runIdMetaKey : NodeProcessingStage → String
  | parse => "parseRunId"
  | classification => "classificationRunId"
  | enrichment => "enrichmentRunId"

/-- Whether a stage has a column for its result. -/
def hasResult : NodeProcessingStage → Bool
  | parse | classification => true
  | enrichment => false

end NodeProcessingStage

/-- The columns of a stage. That of the result is not used by the stage that has
none. -/
structure StageColumns where
  status : NodeProcessingStatus := .pending
  attempts : ℕ := 0
  startedAt : Option ℕ := none
  leaseExpiresAt : Option ℕ := none
  completedAt : Option ℕ := none
  error : Option NodeProcessingError := none
  result : Option KgJson := none

/-- The columns of a row of `kg.nodes` that the processing of a node reads or
writes. -/
structure ProcessedNode where
  createdAt : ℕ
  updatedAt : ℕ
  data : Option String := none
  dataHex : Option String := none
  rawType : String := "string"
  iid : Option String := none
  dataResolved : KgJson := .object []
  classificationType : String := "Unknown"
  searchText : String := ""
  stage : NodeProcessingStage → StageColumns := fun _ => {}
  processingMeta : Table String KgJson := ∅

/-- Fields that a stage sets when it completes. -/
structure NodeProcessingPromotedFields where
  dataResolved : Option KgJson := none
  searchText : Option String := none
  classificationType : Option String := none
  rawType : Option String := none
  iid : Option String := none

/-- The prerequisite of a stage. -/
structure NodeProcessingPrerequisite where
  stage : NodeProcessingStage
  status : NodeProcessingStatus := .completed
  deriving DecidableEq, Repr

namespace ProcessedNode

variable (n : ProcessedNode)

/-- The columns of a stage are replaced. -/
def patchStage (stage : NodeProcessingStage) (now : ℕ) (columns : StageColumns) : ProcessedNode :=
  { n with updatedAt := now, stage := Function.update n.stage stage columns }

/-- Fields are merged into the shared column. -/
def mergeMeta (fields : List (String × KgJson)) : ProcessedNode :=
  { n with processingMeta := n.processingMeta.upsertAll (fun _ v => v) fields }

/-- The run that claimed a stage last. -/
def runId? (stage : NodeProcessingStage) : Option String :=
  (n.processingMeta.lookup stage.runIdMetaKey).bind KgJson.string?

/-- The worker that claimed a stage last. -/
def workerId? (stage : NodeProcessingStage) : Option String :=
  (n.processingMeta.lookup stage.workerIdMetaKey).bind KgJson.string?

/-- A stage is claimed by a run. -/
def StageRunGuard (stage : NodeProcessingStage) (runId : String) : Prop :=
  (n.stage stage).status = .processing ∧ n.runId? stage = some runId

instance (stage : NodeProcessingStage) (runId : String) : Decidable (n.StageRunGuard stage runId) :=
  inferInstanceAs (Decidable (_ ∧ _))

/-- A stage is being processed, and its lease has not expired. -/
def HasActiveLease (stage : NodeProcessingStage) (now : ℕ) : Prop :=
  (n.stage stage).status = .processing ∧ ∃ lease ∈ (n.stage stage).leaseExpiresAt, now ≤ lease

instance (stage : NodeProcessingStage) (now : ℕ) : Decidable (n.HasActiveLease stage now) :=
  inferInstanceAs (Decidable (_ ∧ _))

end ProcessedNode

/-- A stage failed with an error that may go away. -/
def StageColumns.FailedRetriably (c : StageColumns) : Prop :=
  c.status = .failed ∧ ∃ error ∈ c.error, error.retriable = true

instance (c : StageColumns) : Decidable c.FailedRetriably := inferInstanceAs (Decidable (_ ∧ _))

/-- A stage is being processed, by a run whose lease is over. -/
def StageColumns.IsAbandoned (c : StageColumns) (now : ℕ) : Prop :=
  c.status = .processing ∧ ∀ lease ∈ c.leaseExpiresAt, lease < now

instance (c : StageColumns) (now : ℕ) : Decidable (c.IsAbandoned now) :=
  inferInstanceAs (Decidable (_ ∧ _))

def normalizeProcessingError (error : NodeProcessingError) (now : ℕ) : NodeProcessingError :=
  { error with observedAt := some (error.observedAt.getD now) }

/-! ## Claims -/

/-- The arguments of a claim. -/
structure ClaimInput where
  stage : NodeProcessingStage
  nodeId : String
  workerId : String
  leaseMs : ℕ
  maxAttempts : Option ℕ := none
  prerequisiteStage : Option NodeProcessingPrerequisite := none
  deriving DecidableEq, Repr

/-- The condition of a claim. -/
def ClaimInput.Matches (input : ClaimInput) (now : ℕ) (n : ProcessedNode) : Prop :=
  (∀ maxAttempts ∈ input.maxAttempts, (n.stage input.stage).attempts < maxAttempts)
    ∧ (∀ prerequisite ∈ input.prerequisiteStage,
        (n.stage prerequisite.stage).status = prerequisite.status)
    ∧ ((n.stage input.stage).status = .pending
      ∨ (n.stage input.stage).FailedRetriably
      ∨ (n.stage input.stage).IsAbandoned now)

instance (input : ClaimInput) (now : ℕ) (n : ProcessedNode) : Decidable (input.Matches now n) :=
  inferInstanceAs (Decidable (_ ∧ _ ∧ _))

/-- A claim is refused for a lease under a second, and for no attempts at all. -/
def ClaimInput.IsValid (input : ClaimInput) : Prop :=
  1000 ≤ input.leaseMs ∧ ∀ maxAttempts ∈ input.maxAttempts, 1 ≤ maxAttempts

instance (input : ClaimInput) : Decidable input.IsValid := inferInstanceAs (Decidable (_ ∧ _))

namespace NodeProcessingStage

/-- What the worker of a stage claims it after. -/
def workerPrerequisite : NodeProcessingStage → Option NodeProcessingPrerequisite
  | parse => none
  | classification => some { stage := parse }
  | enrichment => some { stage := classification }

/-- The claim of the worker of a stage. -/
def workerClaim (stage : NodeProcessingStage) (nodeId workerId : String)
    (leaseMs maxAttempts : ℕ) : ClaimInput where
  stage := stage
  nodeId := nodeId
  workerId := workerId
  leaseMs := leaseMs
  maxAttempts := some maxAttempts
  prerequisiteStage := stage.workerPrerequisite

end NodeProcessingStage

namespace ProcessedNode

/-- What a claim writes. -/
def claim (n : ProcessedNode) (input : ClaimInput) (runId : String) (now : ℕ) : ProcessedNode :=
  let columns := n.stage input.stage
  (n.patchStage input.stage now
    { columns with
      status := .processing
      attempts := columns.attempts + 1
      startedAt := some now
      leaseExpiresAt := some (now + input.leaseMs)
      error := none }).mergeMeta
    [(input.stage.workerIdMetaKey, .string input.workerId),
      (input.stage.runIdMetaKey, .string runId)]

/-! ## What a run reports -/

/-- What a renewal writes. -/
def renew (n : ProcessedNode) (stage : NodeProcessingStage) (leaseMs now : ℕ) : ProcessedNode :=
  n.patchStage stage now { n.stage stage with leaseExpiresAt := some (now + leaseMs) }

/-- What a completion writes. -/
def complete (n : ProcessedNode) (stage : NodeProcessingStage) (data : Option KgJson)
    (promotedFields : NodeProcessingPromotedFields) (now : ℕ) : ProcessedNode :=
  let columns := n.stage stage
  { n.patchStage stage now
      { columns with
        status := .completed
        leaseExpiresAt := none
        error := none
        completedAt := some now
        result := if stage.hasResult then data <|> columns.result else columns.result } with
    dataResolved := promotedFields.dataResolved.getD n.dataResolved
    searchText := promotedFields.searchText.getD n.searchText
    classificationType := promotedFields.classificationType.getD n.classificationType
    rawType := promotedFields.rawType.getD n.rawType
    iid := promotedFields.iid <|> n.iid }

/-- A stage ends without a result. -/
def failOrSkip (n : ProcessedNode) (stage : NodeProcessingStage) (status : NodeProcessingStatus)
    (error : NodeProcessingError) (now : ℕ) : ProcessedNode :=
  n.patchStage stage now
    { n.stage stage with
      status
      leaseExpiresAt := none
      error := some (normalizeProcessingError error now) }

/-- What a failure writes. -/
def fail (n : ProcessedNode) (stage : NodeProcessingStage) (error : NodeProcessingError)
    (now : ℕ) : ProcessedNode :=
  n.failOrSkip stage .failed error now

/-- The error of a stage that was skipped. -/
def skipError (reason : String) : NodeProcessingError :=
  { code := "SKIPPED", message := reason, retriable := false }

/-- What skipping a stage writes. -/
def skip (n : ProcessedNode) (stage : NodeProcessingStage) (reason : String) (now : ℕ) :
    ProcessedNode :=
  n.failOrSkip stage .skipped (skipError reason) now

/-- A stage is skipped unless someone is working at it, or has. -/
def skipIdle (reason : String) (now : ℕ) (n : ProcessedNode) (stage : NodeProcessingStage) :
    ProcessedNode :=
  if (n.stage stage).status = .pending ∨ (n.stage stage).status = .failed then
    n.skip stage reason now
  else n

/-- Several stages are skipped. -/
def skipStages (n : ProcessedNode) (stages : List NodeProcessingStage) (reason : String)
    (now : ℕ) : ProcessedNode :=
  stages.foldl (skipIdle reason now) n

/-! ## What operators do -/

/-- The columns of a stage that goes back to the start. -/
def resetColumns (n : ProcessedNode) (stage : NodeProcessingStage) : StageColumns :=
  { status := .pending
    result := if stage.hasResult then none else (n.stage stage).result }

/-- A stage goes back to the start. -/
def resetStage (n : ProcessedNode) (stage : NodeProcessingStage) (now : ℕ) : ProcessedNode :=
  n.patchStage stage now (n.resetColumns stage)

end ProcessedNode

/-- The arguments of a requeue. -/
structure RequeueInput where
  stage : NodeProcessingStage
  nodeId : String
  reason : String
  cascadeDownstream : Bool := true
  force : Bool := false
  deriving DecidableEq, Repr

namespace RequeueInput

/-- The stages that a requeue puts back. -/
def stagesToReset (input : RequeueInput) : List NodeProcessingStage :=
  if input.cascadeDownstream then input.stage :: input.stage.downstreamStages else [input.stage]

/-- What a requeue notes in the shared column. -/
def metaPatch (input : RequeueInput) (now : ℕ) : List (String × KgJson) :=
  [(input.stage.asStr ++ "RequeueReason", .string input.reason),
    (input.stage.asStr ++ "LastRequeuedAt", .number now)]
    ++ (if input.cascadeDownstream then
        [(input.stage.asStr ++ "RequeueCascaded",
          .array (input.stage.downstreamStages.map fun stage => .string stage.asStr))] else [])
    ++ if input.force then [(input.stage.asStr ++ "RequeueForced", .boolean true)] else []

/-- What a requeue writes. -/
def patch (input : RequeueInput) (now : ℕ) (n : ProcessedNode) : ProcessedNode :=
  (input.stagesToReset.foldl (fun n stage => n.resetStage stage now) n).mergeMeta
    (input.metaPatch now)

/-- A requeue that is not forced is refused if a stage it puts back is being
processed. -/
def Refuses (input : RequeueInput) (now : ℕ) (n : ProcessedNode) : Prop :=
  input.force = false ∧ ∃ stage ∈ input.stagesToReset, n.HasActiveLease stage now

instance (input : RequeueInput) (now : ℕ) (n : ProcessedNode) : Decidable (input.Refuses now n) :=
  inferInstanceAs (Decidable (_ ∧ _))

end RequeueInput

/-- The arguments of a reset. -/
structure ResetInput where
  stage : NodeProcessingStage
  eligibleStatuses : List NodeProcessingStatus := [.failed, .skipped]
  limit : Option ℕ := none
  nodeIds : List String := []
  reason : Option String := none
  deriving DecidableEq, Repr

namespace ResetInput

/-- A reset is refused if it may touch what is being processed. -/
def IsValid (input : ResetInput) : Prop :=
  input.eligibleStatuses ≠ [] ∧ .processing ∉ input.eligibleStatuses
    ∧ ∀ limit ∈ input.limit, 1 ≤ limit

instance (input : ResetInput) : Decidable input.IsValid := inferInstanceAs (Decidable (_ ∧ _ ∧ _))

/-- The condition of a reset. -/
def Matches (input : ResetInput) (nodeId : String) (n : ProcessedNode) : Prop :=
  (n.stage input.stage).status ∈ input.eligibleStatuses
    ∧ (input.nodeIds = [] ∨ nodeId ∈ input.nodeIds)

instance (input : ResetInput) (nodeId : String) (n : ProcessedNode) :
    Decidable (input.Matches nodeId n) :=
  inferInstanceAs (Decidable (_ ∧ _))

/-- What a reset notes in the shared column. -/
def metaPatch (input : ResetInput) (now : ℕ) : List (String × KgJson) :=
  [(input.stage.asStr ++ "ResetReason",
      .string (input.reason.getD ("manual_reset_" ++ input.stage.asStr))),
    (input.stage.asStr ++ "LastResetAt", .number now)]

/-- What a reset writes. -/
def patch (input : ResetInput) (now : ℕ) (n : ProcessedNode) : ProcessedNode :=
  (n.resetStage input.stage now).mergeMeta (input.metaPatch now)

end ResetInput

/-! ## The sweep -/

/-- The arguments of the sweep for stages whose workers have died. -/
structure ReapInput where
  stage : NodeProcessingStage
  maxAttempts : ℕ
  limit : Option ℕ := none
  deriving DecidableEq, Repr

namespace ReapInput

def IsValid (input : ReapInput) : Prop :=
  1 ≤ input.maxAttempts ∧ ∀ limit ∈ input.limit, 1 ≤ limit

instance (input : ReapInput) : Decidable input.IsValid := inferInstanceAs (Decidable (_ ∧ _))

/-- The condition of the sweep. -/
def Matches (input : ReapInput) (now : ℕ) (n : ProcessedNode) : Prop :=
  (n.stage input.stage).status = .processing
    ∧ input.maxAttempts ≤ (n.stage input.stage).attempts
    ∧ ∃ lease ∈ (n.stage input.stage).leaseExpiresAt, lease < now

instance (input : ReapInput) (now : ℕ) (n : ProcessedNode) : Decidable (input.Matches now n) :=
  inferInstanceAs (Decidable (_ ∧ _ ∧ _))

/-- The error of a stage that the sweep ends. -/
def error (input : ReapInput) : NodeProcessingError :=
  { code := "MAX_ATTEMPTS_EXCEEDED"
    message := "Stage " ++ input.stage.asStr
      ++ " stuck in processing past maxAttempts; reaped by stuck-row sweep."
    retriable := false
    details := some (.object [("maxAttempts", .number input.maxAttempts)]) }

/-- What the sweep writes. -/
def patch (input : ReapInput) (now : ℕ) (n : ProcessedNode) : ProcessedNode :=
  n.fail input.stage input.error now

end ReapInput

/-! ## What is listed -/

/-- The arguments of a query for the nodes whose stage is to be done. -/
structure CandidatesInput where
  stage : NodeProcessingStage
  maxAttempts : ℕ
  includeFailed : Bool := false
  prerequisiteStage : Option NodeProcessingPrerequisite := none
  deriving DecidableEq, Repr

/-- The condition of a query for candidates. -/
def CandidatesInput.Matches (input : CandidatesInput) (now : ℕ) (n : ProcessedNode) : Prop :=
  (((n.stage input.stage).status = .pending ∧ (n.stage input.stage).attempts < input.maxAttempts)
      ∨ ((n.stage input.stage).IsAbandoned now ∧ (n.stage input.stage).attempts < input.maxAttempts)
      ∨ (input.includeFailed = true ∧ (n.stage input.stage).FailedRetriably
        ∧ (n.stage input.stage).attempts < input.maxAttempts))
    ∧ ∀ prerequisite ∈ input.prerequisiteStage,
        (n.stage prerequisite.stage).status = prerequisite.status

instance (input : CandidatesInput) (now : ℕ) (n : ProcessedNode) :
    Decidable (input.Matches now n) :=
  inferInstanceAs (Decidable (_ ∧ _))

/-- The query of the worker of a stage. -/
def NodeProcessingStage.workerCandidates (stage : NodeProcessingStage) (maxAttempts : ℕ) :
    CandidatesInput where
  stage := stage
  maxAttempts := maxAttempts
  includeFailed := true
  prerequisiteStage := stage.workerPrerequisite

/-- The number of attempts that an error says are allowed. -/
def NodeProcessingError.maxAttempts? (error : NodeProcessingError) : Option ℕ :=
  error.details.bind fun details => (details.get? "maxAttempts").bind KgJson.integer?

/-- The condition of the query for dead letters. -/
def StageColumns.IsDeadLetter (c : StageColumns) : Prop :=
  c.status = .failed ∧ ∃ error ∈ c.error,
    error.code = "MAX_ATTEMPTS_EXCEEDED"
      ∨ ∃ maxAttempts ∈ error.maxAttempts?, maxAttempts ≤ c.attempts

instance (c : StageColumns) : Decidable c.IsDeadLetter := inferInstanceAs (Decidable (_ ∧ _))

/-- A worker that shuts down has its leases expire. -/
def ProcessedNode.release (n : ProcessedNode) (stage : NodeProcessingStage) (now : ℕ) :
    ProcessedNode :=
  n.patchStage stage now { n.stage stage with leaseExpiresAt := some now }

/-- A stage is being processed by a worker. -/
def ProcessedNode.IsHeldBy (n : ProcessedNode) (stage : NodeProcessingStage) (workerId : String) :
    Prop :=
  (n.stage stage).status = .processing ∧ n.workerId? stage = some workerId

instance (n : ProcessedNode) (stage : NodeProcessingStage) (workerId : String) :
    Decidable (n.IsHeldBy stage workerId) :=
  inferInstanceAs (Decidable (_ ∧ _))

/-! ## What the patches leave -/

namespace ProcessedNode

variable (n : ProcessedNode) {stage stage' : NodeProcessingStage}

/-- The columns of one stage are replaced. -/
@[simp] theorem stage_patchStage (stage stage' : NodeProcessingStage) (now : ℕ)
    (columns : StageColumns) :
    (n.patchStage stage now columns).stage stage'
      = if stage' = stage then columns else n.stage stage' :=
  Function.update_apply _ _ _ _

@[simp] theorem stage_mergeMeta (fields : List (String × KgJson)) (stage : NodeProcessingStage) :
    (n.mergeMeta fields).stage stage = n.stage stage := rfl

/-- Fields with other keys leave the run id. -/
theorem runId?_mergeMeta {fields : List (String × KgJson)}
    (h : stage.runIdMetaKey ∉ fields.map Prod.fst) :
    (n.mergeMeta fields).runId? stage = n.runId? stage := by
  unfold runId? mergeMeta Table.upsertAll
  refine congrArg (Option.bind · KgJson.string?) ?_
  show (fields.foldl _ n.processingMeta).lookup _ = _
  generalize n.processingMeta = entries
  induction fields generalizing entries with
  | nil => rfl
  | cons field fields ih =>
    have hne := List.ne_of_not_mem_cons h
    rw [List.foldl_cons, ih (List.not_mem_of_not_mem_cons h), Table.lookup_upsert, if_neg hne]

/-- **A claim leaves the run id of its stage**, and that of no other one. -/
theorem runId?_claim (input : ClaimInput) (runId : String) (now : ℕ) (stage : NodeProcessingStage) :
    (n.claim input runId now).runId? stage
      = if stage = input.stage then some runId else n.runId? stage := by
  have hkeys : ∀ a b : NodeProcessingStage, a.runIdMetaKey ≠ b.workerIdMetaKey
      ∧ (a.runIdMetaKey = b.runIdMetaKey ↔ a = b) := by
    intro a b
    cases a <;> cases b <;> decide
  simp only [claim, runId?, mergeMeta, Table.upsertAll, List.foldl_cons, List.foldl_nil,
    Table.lookup_upsert, (hkeys stage input.stage).1, (hkeys stage input.stage).2, if_false]
  split <;> rfl

theorem stage_claim (input : ClaimInput) (runId : String) (now : ℕ) (stage : NodeProcessingStage) :
    (n.claim input runId now).stage stage
      = if stage = input.stage then
          { n.stage input.stage with
            status := .processing
            attempts := (n.stage input.stage).attempts + 1
            startedAt := some now
            leaseExpiresAt := some (now + input.leaseMs)
            error := none }
        else n.stage stage :=
  n.stage_patchStage input.stage stage now _

theorem stage_skipIdle (reason : String) (now : ℕ) (first stage : NodeProcessingStage) :
    (n.skipIdle reason now first).stage stage
      = if stage = first
            ∧ ((n.stage stage).status = .pending ∨ (n.stage stage).status = .failed) then
          { n.stage stage with
            status := .skipped
            leaseExpiresAt := none
            error := some (normalizeProcessingError (skipError reason) now) }
        else n.stage stage := by
  unfold skipIdle
  by_cases hstage : stage = first
  · subst hstage
    split
    · next hidle => simp [skip, failOrSkip, hidle]
    · next hidle => simp [hidle]
  · split <;> simp [skip, failOrSkip, hstage]

/-- **Skipping several stages changes only such as nobody is working at.** -/
theorem stage_skipStages (stages : List NodeProcessingStage) (reason : String) (now : ℕ)
    (stage : NodeProcessingStage) :
    (n.skipStages stages reason now).stage stage
      = if stage ∈ stages ∧ ((n.stage stage).status = .pending ∨ (n.stage stage).status = .failed)
        then
          { n.stage stage with
            status := .skipped
            leaseExpiresAt := none
            error := some (normalizeProcessingError (skipError reason) now) }
        else n.stage stage := by
  unfold skipStages
  induction stages generalizing n with
  | nil => simp
  | cons first stages ih =>
    rw [List.foldl_cons, ih, stage_skipIdle]
    by_cases hstage : stage = first
    · subst hstage
      by_cases hidle : (n.stage stage).status = .pending ∨ (n.stage stage).status = .failed
      · simp [hidle]
      · simp [hidle]
    · simp [hstage]

/-- The sweep ends a stage with its error. -/
theorem stage_reap (input : ReapInput) (now : ℕ) :
    (input.patch now n).stage input.stage
      = { n.stage input.stage with
          status := .failed
          leaseExpiresAt := none
          error := some (normalizeProcessingError input.error now) } := by
  simp [ReapInput.patch, fail, failOrSkip]

theorem runId?_skipStages (stages : List NodeProcessingStage) (reason : String) (now : ℕ)
    (stage : NodeProcessingStage) :
    (n.skipStages stages reason now).runId? stage = n.runId? stage := by
  refine Result.foldl_keeps (g := fun n => n.runId? stage) (fun n first => ?_) stages n
  unfold skipIdle
  split <;> rfl

theorem resetColumns_resetStage (first stage : NodeProcessingStage) (now : ℕ) :
    (n.resetStage first now).resetColumns stage = n.resetColumns stage := by
  unfold resetStage resetColumns
  by_cases hstage : stage = first
  · subst hstage
    by_cases hresult : stage.hasResult = true <;> simp [hresult]
  · simp [hstage]

/-- **A requeue resets its stages**, and no other one. -/
theorem stage_requeue (input : RequeueInput) (now : ℕ) (stage : NodeProcessingStage) :
    (input.patch now n).stage stage
      = if stage ∈ input.stagesToReset then n.resetColumns stage else n.stage stage := by
  unfold RequeueInput.patch
  rw [stage_mergeMeta]
  generalize input.stagesToReset = stages
  induction stages generalizing n with
  | nil => simp
  | cons first stages ih =>
    rw [List.foldl_cons, ih, resetColumns_resetStage]
    by_cases hstage : stage = first <;> simp [hstage, resetStage]

/-- **A requeue leaves the run ids.** -/
theorem runId?_requeue (input : RequeueInput) (now : ℕ) (stage : NodeProcessingStage) :
    (input.patch now n).runId? stage = n.runId? stage := by
  have hkeys : stage.runIdMetaKey ∉ (input.metaPatch now).map Prod.fst := by
    unfold RequeueInput.metaPatch
    cases stage <;> cases input.stage <;> cases input.cascadeDownstream <;> cases input.force <;>
      simp [NodeProcessingStage.asStr, NodeProcessingStage.runIdMetaKey]
  unfold RequeueInput.patch
  rw [runId?_mergeMeta _ hkeys]
  exact Result.foldl_keeps (f := fun n stage => n.resetStage stage now)
    (g := fun n => n.runId? stage) (fun _ _ => rfl) _ n

theorem stage_reset (input : ResetInput) (now : ℕ) (stage : NodeProcessingStage) :
    (input.patch now n).stage stage
      = if stage = input.stage then n.resetColumns input.stage else n.stage stage :=
  n.stage_patchStage input.stage stage now _

/-- **A reset leaves the run ids.** -/
theorem runId?_reset (input : ResetInput) (now : ℕ) (stage : NodeProcessingStage) :
    (input.patch now n).runId? stage = n.runId? stage := by
  have hkeys : stage.runIdMetaKey ∉ (input.metaPatch now).map Prod.fst := by
    unfold ResetInput.metaPatch
    cases stage <;> cases input.stage <;> simp [NodeProcessingStage.asStr,
      NodeProcessingStage.runIdMetaKey]
  exact runId?_mergeMeta _ hkeys

/-! ## What holds of every stage -/

variable {n} {C : NodeProcessingStage → StageColumns → Prop}

/-- One stage is changed. -/
theorem forall_stage_patchStage (h : ∀ stage, C stage (n.stage stage))
    {first : NodeProcessingStage} {columns : StageColumns} (hcolumns : C first columns) (now : ℕ)
    (stage : NodeProcessingStage) : C stage ((n.patchStage first now columns).stage stage) := by
  rw [stage_patchStage]
  split
  · next heq => exact heq ▸ hcolumns
  · exact h stage

/-- Stages are skipped. -/
theorem forall_stage_skipStages (h : ∀ stage, C stage (n.stage stage))
    (hskipped : ∀ stage columns, columns.status = .skipped → C stage columns)
    (stages : List NodeProcessingStage) (reason : String) (now : ℕ) (stage : NodeProcessingStage) :
    C stage ((n.skipStages stages reason now).stage stage) := by
  rw [stage_skipStages]
  split
  · exact hskipped stage _ rfl
  · exact h stage

/-- Stages are put back. -/
theorem forall_stage_requeue (h : ∀ stage, C stage (n.stage stage))
    (hpending : ∀ stage columns, columns.status = .pending → C stage columns)
    (input : RequeueInput) (began : ℕ) (stage : NodeProcessingStage) :
    C stage ((input.patch began n).stage stage) := by
  rw [stage_requeue]
  split
  · exact hpending stage _ rfl
  · exact h stage

end ProcessedNode
