import IntuitionCore.Processing.Statements

/-!
# Dead letters

A stage that failed as often as it may be tried is taken by no claim and returned by no
query for candidates. Operators find it among the dead letters, and the query for those
goes by the error of the stage: either the sweep for dead workers wrote it, or it says
how many attempts are allowed, and the stage has had them.

Each worker reports whatever it catches with the number of attempts that it allows. The
worker of the enrichment has sites of its own at which it reports a failure, and there
the number is missing. A stage that fails for the last time at one of them is done with,
and no dead letter.
-/

/-! ## What workers fail with -/

/-- What a worker may catch. -/
inductive WorkerErrorVariant where
  | parse (code message : String)
  | configuration (message : String)
  | circuitProtected (message : String)
  /-- The message is missing if what was thrown is no error. -/
  | unknown (message : Option String)
  deriving DecidableEq, Repr

/-- What is made of an error that was caught. -/
structure ClassifiedError where
  code : String
  message : String
  retriable : Bool

def classifyWorkerError : WorkerErrorVariant → ClassifiedError
  | .parse code message => { code, message, retriable := false }
  | .configuration message => { code := "WORKER_CONFIGURATION_ERROR", message, retriable := false }
  | .circuitProtected message => { code := "CIRCUIT_PROTECTED_ERROR", message, retriable := true }
  | .unknown message =>
    { code := "WORKER_ERROR"
      message := message.getD "Unknown worker error."
      retriable := true }

/-- The error that a worker reports for what it caught. -/
def toProcessingError (error : WorkerErrorVariant) (maxAttempts : Option ℕ) (now : ℕ) :
    NodeProcessingError :=
  let classified := classifyWorkerError error
  { code := classified.code
    message := classified.message
    retriable := classified.retriable
    observedAt := some now
    details := maxAttempts.map fun n => .object [("maxAttempts", .number n)] }

/-- What an enrichment that produced nothing says of its providers. -/
structure EnrichmentDiagnostics where
  errors : List KgJson
  skipped : List KgJson
  totalErrors : ℕ
  totalSkipped : ℕ
  errorsTruncated : Bool
  skippedTruncated : Bool

def EnrichmentDiagnostics.toJson (diagnostics : EnrichmentDiagnostics) : KgJson :=
  .object [("errors", .array diagnostics.errors), ("skipped", .array diagnostics.skipped),
    ("totalErrors", .number diagnostics.totalErrors),
    ("totalSkipped", .number diagnostics.totalSkipped),
    ("errorsTruncated", .boolean diagnostics.errorsTruncated),
    ("skippedTruncated", .boolean diagnostics.skippedTruncated)]

/-- A failure that a worker reports. -/
inductive WorkerFailure where
  /-- Whatever is caught; the worker of the enrichment redacts the message. -/
  | caught (error : WorkerErrorVariant) (redact : String → String) (now : ℕ)
  | planBlocked (retriable : Bool) (reason : String) (entries : List KgJson)
  | providersRetryable (diagnostics : EnrichmentDiagnostics)
  | providersTerminal (diagnostics : EnrichmentDiagnostics)

namespace WorkerFailure

/-- The worker of a stage may report a failure. -/
def IsOf (stage : NodeProcessingStage) : WorkerFailure → Prop
  | .caught _ redact _ => stage = .enrichment ∨ redact = id
  | _ => stage = .enrichment

/-- The error of a failure. -/
def error (maxAttempts : ℕ) : WorkerFailure → NodeProcessingError
  | .caught error redact now =>
    let processingError := toProcessingError error (some maxAttempts) now
    { processingError with message := redact processingError.message }
  | .planBlocked retriable reason entries =>
    { code := if retriable then "IID_PROVIDER_PLAN_UNAVAILABLE" else "IID_PROVIDER_PLAN_UNSUPPORTED"
      message := reason
      retriable
      details := some (.object [("entries", .array entries)]) }
  | .providersRetryable diagnostics =>
    { code := "ENRICHMENT_PROVIDERS_RETRYABLE"
      message := "Enrichment produced no artifacts and every attempted provider failed retryably."
      retriable := true
      details := some diagnostics.toJson }
  | .providersTerminal diagnostics =>
    { code := "ENRICHMENT_PROVIDERS_TERMINAL"
      message :=
        if 0 < diagnostics.totalErrors then
          "Enrichment produced no artifacts and at least one provider failed terminally."
        else "Enrichment produced no artifacts because every provider was skipped."
      retriable := false
      details := some diagnostics.toJson }

/-- A failure is one that was caught. -/
def IsCaught : WorkerFailure → Bool
  | .caught _ _ _ => true
  | _ => false

/-- **An error says how many attempts are allowed** if it was caught, and only then. -/
theorem maxAttempts?_error (failure : WorkerFailure) (maxAttempts : ℕ) :
    (failure.error maxAttempts).maxAttempts?
      = if failure.IsCaught then some maxAttempts else none := by
  cases failure with
  | caught => rfl
  | planBlocked => rfl
  | providersRetryable => rfl
  | providersTerminal => rfl

/-- An error that was not caught is not that of the sweep. -/
theorem code_error {failure : WorkerFailure} (h : failure.IsCaught = false) (maxAttempts : ℕ) :
    (failure.error maxAttempts).code ≠ "MAX_ATTEMPTS_EXCEEDED" := by
  cases failure with
  | caught => cases h
  | planBlocked retriable => cases retriable <;> simp [error]
  | providersRetryable => simp [error]
  | providersTerminal => simp [error]

end WorkerFailure

namespace ProcessingOp

/-- What runs report as failures are failures of workers. -/
def FailsAsWorker (limits : NodeProcessingStage → ℕ) : ProcessingOp → Prop
  | .fail stage _ error => ∃ failure : WorkerFailure, failure.IsOf stage
      ∧ error = failure.error (limits stage)
  | _ => True

/-- The failure that an operation reports. -/
def failure? : ProcessingOp → Option (NodeProcessingStage × NodeProcessingError)
  | .fail stage _ error => some (stage, error)
  | _ => none

/-- **At the last attempt, a failure says how many attempts are allowed.** -/
def LastFailureCounted (limits : NodeProcessingStage → ℕ) (op : ProcessingOp)
    (n : ProcessedNode) : Prop :=
  ∀ failure ∈ op.failure?, limits failure.1 ≤ (n.stage failure.1).attempts →
    failure.2.maxAttempts? = some (limits failure.1)

instance (limits : NodeProcessingStage → ℕ) (op : ProcessingOp) (n : ProcessedNode) :
    Decidable (op.LastFailureCounted limits n) :=
  inferInstanceAs (Decidable (∀ failure ∈ op.failure?, _))

end ProcessingOp

/-! ## What an operation does to the stages that failed -/

/-- A stage that failed as often as it may be tried is a dead letter. -/
def StageColumns.IsListed (c : StageColumns) (limit : ℕ) : Prop :=
  c.status = .failed → limit ≤ c.attempts → c.IsDeadLetter

namespace ProcessedNode

variable {n : ProcessedNode} {limits : NodeProcessingStage → ℕ}

/-- A stage that did not fail. -/
theorem isListed_of_ne {c : StageColumns} (h : c.status ≠ .failed) (limit : ℕ) : c.IsListed limit :=
  fun hfailed => absurd hfailed h

/-- One stage is changed. -/
theorem isListed_patchStage_iff (h : ∀ stage, (n.stage stage).IsListed (limits stage))
    (first : NodeProcessingStage) (now : ℕ) (columns : StageColumns) :
    (∀ stage, ((n.patchStage first now columns).stage stage).IsListed (limits stage))
      ↔ columns.IsListed (limits first) := by
  constructor
  · intro hall
    simpa using hall first
  · intro hcolumns
    exact forall_stage_patchStage (C := fun stage c => c.IsListed (limits stage)) h hcolumns now

/-- Stages are skipped. -/
theorem isListed_skipStages (h : ∀ stage, (n.stage stage).IsListed (limits stage)) :
    ∀ stages reason now stage,
      ((n.skipStages stages reason now).stage stage).IsListed (limits stage) := by
  refine forall_stage_skipStages (C := fun stage c => c.IsListed (limits stage)) h ?_
  rintro stage columns hskipped hfailed
  cases hskipped.symm.trans hfailed

/-- Stages are put back. -/
theorem isListed_requeue (h : ∀ stage, (n.stage stage).IsListed (limits stage)) :
    ∀ (input : RequeueInput) began stage,
      ((input.patch began n).stage stage).IsListed (limits stage) := by
  refine forall_stage_requeue (C := fun stage c => c.IsListed (limits stage)) h ?_
  rintro stage columns hpending hfailed
  cases hpending.symm.trans hfailed

end ProcessedNode

/-- **What an operation does to the dead letters**: it leaves a stage that failed for the
last time and is none, if and only if it reports a last failure that does not say how many
attempts are allowed. -/
theorem ProcessingOp.isListed_iff {limits : NodeProcessingStage → ℕ} {op : ProcessingOp} {now : ℕ}
    {n : ProcessedNode} (hop : op.FailsAsWorker limits) (hguard : op.Guard now n)
    (h : ∀ stage, (n.stage stage).IsListed (limits stage)) :
    (∀ stage, ((op.patch now n).stage stage).IsListed (limits stage))
      ↔ op.LastFailureCounted limits n := by
  have hone (first : NodeProcessingStage) (now : ℕ) {columns : StageColumns}
      (hcolumns : columns.status ≠ .failed) (stage : NodeProcessingStage) :
      ((n.patchStage first now columns).stage stage).IsListed (limits stage) :=
    (ProcessedNode.isListed_patchStage_iff h first now columns).mpr
      (ProcessedNode.isListed_of_ne hcolumns _) stage
  cases op with
  | claim input runId => exact iff_of_true (hone input.stage now nofun) nofun
  | renew stage runId leaseMs =>
    have hcolumns : (n.stage stage).status ≠ .failed := by simp [hguard.1]
    exact iff_of_true (hone stage now hcolumns) nofun
  | complete stage runId data promotedFields => exact iff_of_true (hone stage now nofun) nofun
  | completeWithArtifacts runId artifactIds promotedFields =>
    exact iff_of_true (hone .enrichment now nofun) nofun
  | fail stage runId error =>
    obtain ⟨failure, -, rfl⟩ := hop
    refine (ProcessedNode.isListed_patchStage_iff h stage now _).trans ?_
    have hsite := failure.maxAttempts?_error (limits stage)
    cases hcaught : failure.IsCaught with
    | true =>
      rw [hcaught, if_pos rfl] at hsite
      refine iff_of_true (fun _ hlimit => ⟨rfl, _, rfl, .inr ⟨_, hsite, hlimit⟩⟩) ?_
      rintro _ ⟨⟩ -
      exact hsite
    | false =>
      rw [hcaught, if_neg Bool.false_ne_true] at hsite
      constructor
      · rintro hlisted _ ⟨⟩ hlimit
        obtain ⟨-, error, ⟨⟩, hcode | ⟨maxAttempts, hmax, -⟩⟩ := hlisted rfl hlimit
        · exact absurd hcode (WorkerFailure.code_error hcaught _)
        · cases hsite.symm.trans hmax
      · rintro hcounted - hlimit
        cases hsite.symm.trans (hcounted _ rfl hlimit)
  | skip stage runId reason => exact iff_of_true (hone stage now nofun) nofun
  | skipStages stages reason =>
    exact iff_of_true (ProcessedNode.isListed_skipStages h stages reason now) nofun
  | skipWithDownstream stage runId reason downstreamReason =>
    refine iff_of_true (ProcessedNode.isListed_skipStages ?_ _ downstreamReason now) nofun
    exact hone stage now nofun
  | requeue input began => exact iff_of_true (ProcessedNode.isListed_requeue h input began) nofun
  | reset input began => exact iff_of_true (hone input.stage began nofun) nofun
  | reap input began =>
    refine iff_of_true ?_ nofun
    refine (ProcessedNode.isListed_patchStage_iff h input.stage began _).mpr fun _ _ => ?_
    exact ⟨rfl, _, rfl, .inl rfl⟩
  | release stage =>
    have hcolumns : (n.stage stage).status ≠ .failed := by
      rw [show (n.stage stage).status = .processing from hguard]
      exact nofun
    exact iff_of_true (hone stage now hcolumns) nofun

/-! ## What the sweep finds -/

/-- A stage that is being processed has a lease. -/
def StageColumns.IsLeased (c : StageColumns) : Prop :=
  c.status = .processing → c.leaseExpiresAt.isSome = true

namespace ProcessedNode

variable {n : ProcessedNode}

theorem isLeased_of_ne {c : StageColumns} (h : c.status ≠ .processing) : c.IsLeased :=
  fun hprocessing => absurd hprocessing h

/-- One stage is changed. -/
theorem isLeased_patchStage (h : ∀ stage, (n.stage stage).IsLeased) {columns : StageColumns}
    (hcolumns : columns.IsLeased) (first : NodeProcessingStage) (now : ℕ) :
    ∀ stage, ((n.patchStage first now columns).stage stage).IsLeased :=
  forall_stage_patchStage (C := fun _ c => c.IsLeased) h hcolumns now

/-- Stages are skipped. -/
theorem isLeased_skipStages (h : ∀ stage, (n.stage stage).IsLeased) :
    ∀ stages reason now stage, ((n.skipStages stages reason now).stage stage).IsLeased := by
  refine forall_stage_skipStages (C := fun _ c => c.IsLeased) h ?_
  rintro stage columns hskipped hprocessing
  cases hskipped.symm.trans hprocessing

/-- Stages are put back. -/
theorem isLeased_requeue (h : ∀ stage, (n.stage stage).IsLeased) :
    ∀ (input : RequeueInput) began stage, ((input.patch began n).stage stage).IsLeased := by
  refine forall_stage_requeue (C := fun _ c => c.IsLeased) h ?_
  rintro stage columns hpending hprocessing
  cases hpending.symm.trans hprocessing

end ProcessedNode

/-- **Every operation leaves a lease with a stage that is being processed.** -/
theorem ProcessingOp.isLeased_patch (op : ProcessingOp) (now : ℕ) {n : ProcessedNode}
    (h : ∀ stage, (n.stage stage).IsLeased) : ∀ stage, ((op.patch now n).stage stage).IsLeased := by
  have hended (first : NodeProcessingStage) (now : ℕ) {columns : StageColumns}
      (hcolumns : columns.status ≠ .processing) (stage : NodeProcessingStage) :
      ((n.patchStage first now columns).stage stage).IsLeased :=
    ProcessedNode.isLeased_patchStage h (ProcessedNode.isLeased_of_ne hcolumns) first now stage
  cases op with
  | claim input runId => exact ProcessedNode.isLeased_patchStage h (fun _ => rfl) input.stage now
  | renew stage runId leaseMs => exact ProcessedNode.isLeased_patchStage h (fun _ => rfl) stage now
  | release stage => exact ProcessedNode.isLeased_patchStage h (fun _ => rfl) stage now
  | complete stage runId data promotedFields => exact hended stage now nofun
  | completeWithArtifacts runId artifactIds promotedFields => exact hended .enrichment now nofun
  | fail stage runId error => exact hended stage now nofun
  | skip stage runId reason => exact hended stage now nofun
  | reset input began => exact hended input.stage began nofun
  | reap input began => exact hended input.stage began nofun
  | skipStages stages reason => exact ProcessedNode.isLeased_skipStages h stages reason now
  | skipWithDownstream stage runId reason downstreamReason =>
    refine ProcessedNode.isLeased_skipStages ?_ _ downstreamReason now
    exact hended stage now nofun
  | requeue input began => exact ProcessedNode.isLeased_requeue h input began

/-- Every stage that is being processed has a lease, whatever is done. -/
theorem TrackedNode.rowInvariant_isLeased : ProcessingDb.RowInvariant (fun _ => True)
    fun _ n => ∀ stage, (n.stage stage).IsLeased where
  new _ _ _ _ _ := ProcessedNode.isLeased_of_ne nofun
  mono _ _ _ _ h := h
  apply _ _ _ _ _ _ _ h := ProcessingOp.isLeased_patch _ _ h

/-- A stage failed as often as it may be tried, and is a dead letter. -/
def StageColumns.IsDead (c : StageColumns) (limit : ℕ) : Prop :=
  c.status = .failed ∧ limit ≤ c.attempts ∧ c.IsDeadLetter

/-- What the sweep ends is dead. -/
theorem ReapInput.isDead_patch {input : ReapInput} {n : ProcessedNode} (began : ℕ)
    (h : input.maxAttempts ≤ (n.stage input.stage).attempts) :
    ((input.patch began n).stage input.stage).IsDead input.maxAttempts := by
  rw [ProcessedNode.stage_reap]
  exact ⟨rfl, h, rfl, _, rfl, .inl rfl⟩

namespace ProcessingDb

variable {s s' : ProcessingDb} {a : Action} {id : String} {n : TrackedNode}
  {limits : NodeProcessingStage → ℕ}

/-- The sweep, with nothing between its statements. -/
def sweepNow (s : ProcessingDb) (input : ReapInput) (page : Finset String) :
    Option ProcessingDb := do
  let s' ← s.step (.reap input page)
  if input.limit = none then some s' else s'.step (.update 0)

/-- **A sweep finds a stage**, and it is dead after the sweep, unless the sweep is limited
and has taken as many others as it may. -/
def IsReaped (s : ProcessingDb) (id : String) (n : ProcessedNode) (input : ReapInput) : Prop :=
  input.Matches s.clock n ∧ ∀ page s', s.sweepNow input page = some s' →
    (∃ n', s'.nodes.lookup id = some n' ∧ (n'.stage input.stage).IsDead input.maxAttempts)
      ∨ id ∉ page ∧ input.limit = some page.card

/-- **Dead letters are complete**: a stage that failed as often as it may be tried is one,
and a stage that was tried as often and abandoned is found by the sweep, and becomes
one. -/
structure DeadLettersComplete (limits : NodeProcessingStage → ℕ) (s : ProcessingDb) : Prop where
  failed : ∀ id n, s.nodes.lookup id = some n → ∀ stage, (n.stage stage).status = .failed →
    limits stage ≤ (n.stage stage).attempts → (n.stage stage).IsDeadLetter
  abandoned : ∀ id n, s.nodes.lookup id = some n → ∀ stage, (n.stage stage).IsAbandoned s.clock →
    limits stage ≤ (n.stage stage).attempts → ∀ limit,
      s.IsReaped id n.toProcessedNode { stage, maxAttempts := limits stage, limit }

/-- The sweep takes a row that it finds. -/
theorem isDead_of_reap {input : ReapInput} (hn : s.nodes.lookup id = some n)
    (hattempts : input.maxAttempts ≤ (n.stage input.stage).attempts) (h : s.step a = some s')
    {began : ℕ} (hop : a.operationOn s id n.toProcessedNode = some (.reap input began)) :
    ∃ n', s'.nodes.lookup id = some n' ∧ (n'.stage input.stage).IsDead input.maxAttempts := by
  have hn' := (lookup_of_step h hn).1
  rw [hop] at hn'
  exact ⟨_, hn', input.isDead_patch began hattempts⟩

/-- **The sweep finds what was abandoned.** -/
theorem isReaped_of_isAbandoned (hn : s.nodes.lookup id = some n) {input : ReapInput}
    (hleased : (n.stage input.stage).IsLeased) (h : (n.stage input.stage).IsAbandoned s.clock)
    (hattempts : input.maxAttempts ≤ (n.stage input.stage).attempts) :
    s.IsReaped id n.toProcessedNode input := by
  have hmatches : input.Matches s.clock n.toProcessedNode := by
    obtain ⟨lease, hlease⟩ := Option.isSome_iff_exists.mp (hleased h.1)
    exact ⟨h.1, hattempts, lease, hlease, h.2 lease hlease⟩
  refine ⟨hmatches, fun page s' hs' => ?_⟩
  obtain ⟨s₁, hs₁, hs'⟩ := Option.bind_eq_some_iff.mp hs'
  cases hlimit : input.limit with
  | none =>
    rw [if_pos hlimit] at hs'
    cases hs'
    exact .inl (isDead_of_reap hn hattempts hs₁ (if_pos ⟨hlimit, hmatches⟩))
  | some limit =>
    rw [if_neg (by simp [hlimit])] at hs'
    obtain ⟨-, hs₁⟩ := Option.ite_none_right_eq_some.mp hs₁
    rw [hlimit] at hs₁
    obtain ⟨hpage, hs₁⟩ := Option.ite_none_right_eq_some.mp hs₁
    obtain rfl := Option.some.inj hs₁
    by_cases hid : id ∈ page
    · have hn₁ : ({ s with sweeps := .reap input s.clock page :: s.sweeps } :
          ProcessingDb).nodes.lookup id = some n := hn
      exact .inl (isDead_of_reap hn₁ hattempts hs' (if_pos hid))
    · refine .inr ⟨hid, congrArg some ?_⟩
      have hlt : page.card < (s.nodes.keysWhere
          fun _ n => input.Matches s.clock n.toProcessedNode).card := by
        refine Finset.card_lt_card ((Finset.ssubset_iff_of_subset hpage.1).mpr ⟨id, ?_, hid⟩)
        exact Table.mem_keysWhere.mpr ⟨n, hn, hmatches⟩
      have hcard := hpage.2.1
      omega

/-- **A step leaves the dead letters complete** exactly if the last failures it reports say
how many attempts are allowed. -/
theorem deadLettersComplete_step_iff (ha : a.Only (ProcessingOp.FailsAsWorker limits))
    (hleased : Holds (fun _ => True) (fun _ n => ∀ stage, (n.stage stage).IsLeased) s')
    (hs : s.DeadLettersComplete limits) (h : s.step a = some s') :
    s'.DeadLettersComplete limits ↔ ∀ id ∈ s.nodes.keys, ∀ n ∈ s.nodes.lookup id,
      ∀ op ∈ a.operationOn s id n.toProcessedNode,
        op.LastFailureCounted limits n.toProcessedNode := by
  have hfails : ∀ id n op, op ∈ a.operationOn s id n → op.FailsAsWorker limits :=
    fun id n op hop => only_of_operationOn (fun sweep => by cases sweep <;> trivial) ha hop
  have hiff := forall_rows_step_iff (R := fun n => ∀ stage, (n.stage stage).IsListed (limits stage))
    (C := fun op n => op.LastFailureCounted limits n) h
    (fun now data dataHex stage hfailed => nomatch hfailed)
    (fun id n op hop hguard hn => ProcessingOp.isListed_iff (hfails id n op hop) hguard hn)
    hs.failed
  refine Iff.trans ⟨fun h => h.failed, fun h => ⟨h, ?_⟩⟩ hiff
  intro id n hn stage habandoned hattempts limit
  exact isReaped_of_isAbandoned hn (hleased.rows id n hn stage) habandoned hattempts

end ProcessingDb

open ProcessingDb

/-- A last failure says how many attempts are allowed. -/
def ProcessingDb.LastFailuresCounted (limits : NodeProcessingStage → ℕ) (s : ProcessingDb)
    (a : Action) : Prop :=
  ∀ id ∈ s.nodes.keys, ∀ n ∈ s.nodes.lookup id, ∀ op ∈ a.operationOn s id n.toProcessedNode,
    op.LastFailureCounted limits n.toProcessedNode

instance (limits : NodeProcessingStage → ℕ) (s : ProcessingDb) (a : Action) :
    Decidable (s.LastFailuresCounted limits a) :=
  inferInstanceAs (Decidable (∀ id ∈ s.nodes.keys, ∀ n ∈ s.nodes.lookup id,
    ∀ op ∈ a.operationOn s id n.toProcessedNode, op.LastFailureCounted limits n.toProcessedNode))

/-- **Dead letters are complete** throughout a run in which runs fail as workers do, with
some number of attempts for each stage, exactly if no run that has made the last attempt
at its stage reports a failure whose error does not say how many attempts are allowed. -/
theorem dead_letters_complete_iff {limits : NodeProcessingStage → ℕ} {actions : List Action}
    (hactions : ∀ a ∈ actions, a.Only (ProcessingOp.FailsAsWorker limits)) :
    Run.Always step (DeadLettersComplete limits) {} actions
      ↔ Run.EachStep step (LastFailuresCounted limits) {} actions := by
  have hany : ∀ a : Action, a.Only fun _ => True := fun _ _ _ _ => trivial
  refine Run.always_iff_eachStep_of_forall
    (I := Holds (fun _ => True) fun _ n => ∀ stage, (n.stage stage).IsLeased) ?_ ?_ holds_empty
    ⟨nofun, nofun⟩ hactions
  · exact fun s a s' _ hs _ h _ => TrackedNode.rowInvariant_isLeased.step (hany a) hs h
  · intro s a s' ha hleased hs h
    have hleased' := TrackedNode.rowInvariant_isLeased.step (hany a) hleased h
    exact deadLettersComplete_step_iff ha hleased' hs h

/-- The worker of the first stage fails at its only attempt. -/
def caughtAtLastAttempt : List Action :=
  [.ensureNode "0x01" (some "hello") none,
    .claim (NodeProcessingStage.parse.workerClaim "0x01" "worker-1" 60_000 1) "run-1",
    .report "0x01" (.fail .parse "run-1"
      ((WorkerFailure.caught (.unknown (some "boom")) id 0).error 1))]

/-- It is a dead letter. -/
theorem dead_letters_complete_iff_caughtAtLastAttempt :
    Run.Always step (DeadLettersComplete fun _ => 1) {} caughtAtLastAttempt := by
  refine (dead_letters_complete_iff ?_).mpr ?_
  · simp [caughtAtLastAttempt, Action.Only, Action.op?, ProcessingOp.FailsAsWorker]
    exact ⟨.caught (.unknown (some "boom")) id 0, .inr rfl, rfl⟩
  · decide +kernel

/-- A node is parsed and classified, and no provider enriches it at the only attempt. -/
def retryableAtLastAttempt : List Action :=
  [.ensureNode "0x01" (some "hello") none,
    .claim (NodeProcessingStage.parse.workerClaim "0x01" "worker-1" 60_000 1) "run-1",
    .report "0x01" (.complete .parse "run-1" (some (.object [("kind", .string "text")])) {}),
    .claim (NodeProcessingStage.classification.workerClaim "0x01" "worker-2" 60_000 1) "run-2",
    .report "0x01" (.complete .classification "run-2" (some (.object [])) {}),
    .claim (NodeProcessingStage.enrichment.workerClaim "0x01" "worker-3" 60_000 1) "run-3",
    .report "0x01" (.fail .enrichment "run-3" ((WorkerFailure.providersRetryable
      { errors := [.object [("code", .string "RATE_LIMITED")]]
        skipped := []
        totalErrors := 1
        totalSkipped := 0
        errorsTruncated := false
        skippedTruncated := false }).error 1))]

/-- **Dead letters need not be complete**: the enrichment failed as often as it may be
tried, and is none. -/
theorem retryableAtLastAttempt_not_complete :
    ¬ ∀ (limits : NodeProcessingStage → ℕ) (actions : List Action),
      (∀ a ∈ actions, a.Only (ProcessingOp.FailsAsWorker limits)) →
        Run.Always step (DeadLettersComplete limits) {} actions := by
  intro h
  have hactions : ∀ a ∈ retryableAtLastAttempt,
      a.Only (ProcessingOp.FailsAsWorker fun _ => 1) := by
    simp [retryableAtLastAttempt, Action.Only, Action.op?, ProcessingOp.FailsAsWorker]
    exact ⟨.providersRetryable _, rfl, rfl⟩
  have hrun : ((Run.follow step {} retryableAtLastAttempt).bind fun s =>
      s.nodes.lookup "0x01").map (fun n => ((n.stage .enrichment).status,
        (n.stage .enrichment).attempts, decide (n.stage .enrichment).IsDeadLetter))
        = some (.failed, 1, false) := by
    decide +kernel
  obtain ⟨n, hn, heq⟩ := Option.map_eq_some_iff.mp hrun
  obtain ⟨s, hs, hlookup⟩ := Option.bind_eq_some_iff.mp hn
  simp only [Prod.mk.injEq] at heq
  obtain ⟨hfailed, hattempts, hnone⟩ := heq
  have hcomplete := (h (fun _ => 1) _ hactions).of_follow hs
  exact of_decide_eq_false hnone
    (hcomplete.failed "0x01" n hlookup .enrichment hfailed hattempts.ge)
