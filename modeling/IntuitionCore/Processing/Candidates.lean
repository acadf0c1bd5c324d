import IntuitionCore.Processing.DeadLetters

/-!
# Who picks a stage up

A worker lists the nodes whose stage is to be done, and claims them one by one. A sweep ends
the stages that are stuck. Each of these has a filter of its own, over the status, the
attempts, the lease and the error of the stage. Together they leave no row of which nobody
takes care, and none of which two do: a stage whose prerequisite is met is to be done, or a
worker holds it, or the sweep ends it, or it has ended.
-/

/-- What becomes of a stage. -/
inductive StageSituation where
  | candidate
  | leased
  | reapable
  | terminal
  deriving DecidableEq, Repr

/-- A stage has ended: it completed, or was skipped, or failed for good, or it may not be tried
any more. -/
def StageColumns.IsTerminal (c : StageColumns) (maxAttempts : ℕ) : Prop :=
  c.status = .completed ∨ c.status = .skipped
    ∨ c.status = .failed ∧ (¬ c.FailedRetriably ∨ maxAttempts ≤ c.attempts)
    ∨ c.status = .pending ∧ maxAttempts ≤ c.attempts

/-- The situation of a stage. -/
def StageSituation.Holds (input : CandidatesInput) (now : ℕ) (n : ProcessedNode) :
    StageSituation → Prop
  | candidate => input.Matches now n
  | leased => n.HasActiveLease input.stage now
  | reapable =>
    ReapInput.Matches { stage := input.stage, maxAttempts := input.maxAttempts } now n
  | terminal => (n.stage input.stage).IsTerminal input.maxAttempts

/-- The claim that goes with a query. -/
def CandidatesInput.toClaim (input : CandidatesInput) (nodeId workerId : String) (leaseMs : ℕ) :
    ClaimInput where
  stage := input.stage
  nodeId := nodeId
  workerId := workerId
  leaseMs := leaseMs
  maxAttempts := some input.maxAttempts
  prerequisiteStage := input.prerequisiteStage

/-- **What is listed is what is claimed.** -/
theorem CandidatesInput.matches_iff_claim {input : CandidatesInput} (h : input.includeFailed = true)
    (nodeId workerId : String) (leaseMs now : ℕ) (n : ProcessedNode) :
    input.Matches now n ↔ (input.toClaim nodeId workerId leaseMs).Matches now n := by
  unfold Matches ClaimInput.Matches toClaim
  simp only [h, true_and, Option.mem_some_iff, forall_eq']
  tauto

/-! ## Stages that were never tried -/

/-- A stage that is pending was not tried since it was put back. -/
def StageColumns.IsUntried (c : StageColumns) : Prop := c.status = .pending → c.attempts = 0

lemma StageColumns.isUntried_of_ne {c : StageColumns} (h : c.status ≠ .pending) : c.IsUntried :=
  fun hpending => absurd hpending h

namespace ProcessedNode

variable {n : ProcessedNode}

/-- One stage is changed. -/
lemma isUntried_patchStage (h : ∀ stage, (n.stage stage).IsUntried) {columns : StageColumns}
    (hcolumns : columns.IsUntried) (first : NodeProcessingStage) (now : ℕ) :
    ∀ stage, ((n.patchStage first now columns).stage stage).IsUntried :=
  forall_stage_patchStage (C := fun _ c => c.IsUntried) h hcolumns now

/-- Stages are skipped. -/
lemma isUntried_skipStages (h : ∀ stage, (n.stage stage).IsUntried) :
    ∀ stages reason now stage, ((n.skipStages stages reason now).stage stage).IsUntried := by
  refine forall_stage_skipStages (C := fun _ c => c.IsUntried) h ?_
  rintro stage columns hskipped hpending
  cases hskipped.symm.trans hpending

/-- Stages are put back. -/
lemma isUntried_requeue (h : ∀ stage, (n.stage stage).IsUntried) (input : RequeueInput)
    (began : ℕ) (stage : NodeProcessingStage) : ((input.patch began n).stage stage).IsUntried := by
  rw [stage_requeue]
  split
  · exact fun _ => rfl
  · exact h stage

end ProcessedNode

/-- **Every operation leaves a pending stage without attempts.** -/
theorem ProcessingOp.isUntried_patch {op : ProcessingOp} {now : ℕ} {n : ProcessedNode}
    (hguard : op.Guard now n) (h : ∀ stage, (n.stage stage).IsUntried) :
    ∀ stage, ((op.patch now n).stage stage).IsUntried := by
  have hended (first : NodeProcessingStage) (now : ℕ) {columns : StageColumns}
      (hcolumns : columns.status ≠ .pending) (stage : NodeProcessingStage) :
      ((n.patchStage first now columns).stage stage).IsUntried :=
    ProcessedNode.isUntried_patchStage h (StageColumns.isUntried_of_ne hcolumns) first now stage
  -- a stage whose lease changes is being processed
  have hheld {stage : NodeProcessingStage} (hstage : (n.stage stage).status = .processing) :
      (n.stage stage).status ≠ .pending := by
    rw [hstage]
    exact nofun
  cases op with
  | claim input runId => exact hended input.stage now nofun
  | renew stage runId leaseMs => exact hended stage now (hheld hguard.1)
  | release stage => exact hended stage now (hheld hguard)
  | complete stage runId data promotedFields => exact hended stage now nofun
  | completeWithArtifacts runId artifactIds promotedFields => exact hended .enrichment now nofun
  | fail stage runId error => exact hended stage now nofun
  | skip stage runId reason => exact hended stage now nofun
  | reset input began => exact ProcessedNode.isUntried_patchStage h (fun _ => rfl) input.stage began
  | reap input began => exact hended input.stage began nofun
  | skipStages stages reason => exact ProcessedNode.isUntried_skipStages h stages reason now
  | skipWithDownstream stage runId reason downstreamReason =>
    refine ProcessedNode.isUntried_skipStages ?_ _ downstreamReason now
    exact hended stage now nofun
  | requeue input began => exact ProcessedNode.isUntried_requeue h input began

/-- A pending stage has no attempts, whatever is done. -/
lemma TrackedNode.rowInvariant_isUntried : ProcessingDb.RowInvariant (fun _ => True)
    fun _ n => ∀ stage, (n.stage stage).IsUntried where
  new _ _ _ _ _ := fun _ => rfl
  mono _ _ _ _ h := h
  apply _ _ _ _ _ hguard _ h := ProcessingOp.isUntried_patch hguard h

/-! ## The filters -/

namespace StageSituation

variable {input : CandidatesInput} {now : ℕ} {n : ProcessedNode}

/-- A candidate may be tried, and nobody holds it. -/
lemma lt_of_candidate (h : candidate.Holds input now n) :
    (n.stage input.stage).attempts < input.maxAttempts
      ∧ ((n.stage input.stage).status = .pending ∨ (n.stage input.stage).IsAbandoned now
        ∨ (n.stage input.stage).FailedRetriably) := by
  obtain ⟨⟨hs, ha⟩ | ⟨hs, ha⟩ | ⟨-, hs, ha⟩, -⟩ := h
  · exact ⟨ha, .inl hs⟩
  · exact ⟨ha, .inr (.inl hs)⟩
  · exact ⟨ha, .inr (.inr hs)⟩

lemma not_candidate_of_leased (h : leased.Holds input now n) : ¬ candidate.Holds input now n := by
  obtain ⟨hstatus, lease, hlease, hnow⟩ := h
  intro h'
  obtain ⟨-, hs | ⟨-, hs⟩ | ⟨hs, -⟩⟩ := lt_of_candidate h'
  · cases hstatus.symm.trans hs
  · exact absurd (hs lease hlease) (Nat.not_lt_of_le hnow)
  · cases hstatus.symm.trans hs

lemma not_candidate_of_reapable (h : reapable.Holds input now n) :
    ¬ candidate.Holds input now n :=
  fun h' => absurd (lt_of_candidate h').1 (Nat.not_lt_of_le h.2.1)

lemma not_leased_of_reapable (h : reapable.Holds input now n) : ¬ leased.Holds input now n := by
  obtain ⟨-, -, lease, hlease, hlt⟩ := h
  rintro ⟨-, lease', hlease', hle⟩
  cases Option.some.inj (hlease.symm.trans hlease')
  exact absurd hlt (Nat.not_lt_of_le hle)

/-- What has ended is not being processed, and may not be tried. -/
lemma not_of_terminal (h : terminal.Holds input now n) :
    ¬ candidate.Holds input now n ∧ (n.stage input.stage).status ≠ .processing := by
  have hstatus : (n.stage input.stage).status ≠ .processing := by
    intro hs
    obtain hs' | hs' | ⟨hs', -⟩ | ⟨hs', -⟩ := h <;> cases hs.symm.trans hs'
  refine ⟨fun h' => ?_, hstatus⟩
  obtain ⟨hlt, hcan⟩ := lt_of_candidate h'
  obtain hs | hs | ⟨hs, hend⟩ | ⟨hs, hle⟩ := h
  · obtain hc | ⟨hc, -⟩ | ⟨hc, -⟩ := hcan <;> cases hs.symm.trans hc
  · obtain hc | ⟨hc, -⟩ | ⟨hc, -⟩ := hcan <;> cases hs.symm.trans hc
  · obtain hnot | hle := hend
    · obtain hc | ⟨hc, -⟩ | hc := hcan
      · cases hs.symm.trans hc
      · cases hs.symm.trans hc
      · exact hnot hc
    · exact absurd hlt (Nat.not_lt_of_le hle)
  · exact absurd hlt (Nat.not_lt_of_le hle)

/-- **No two filters find a stage.** -/
lemma eq_of_holds {situation situation' : StageSituation} (h : situation.Holds input now n)
    (h' : situation'.Holds input now n) : situation = situation' := by
  cases situation <;> cases situation'
  case candidate.candidate => rfl
  case leased.leased => rfl
  case reapable.reapable => rfl
  case terminal.terminal => rfl
  case candidate.leased => exact absurd h (not_candidate_of_leased h')
  case leased.candidate => exact absurd h' (not_candidate_of_leased h)
  case candidate.reapable => exact absurd h (not_candidate_of_reapable h')
  case reapable.candidate => exact absurd h' (not_candidate_of_reapable h)
  case leased.reapable => exact absurd h (not_leased_of_reapable h')
  case reapable.leased => exact absurd h' (not_leased_of_reapable h)
  case candidate.terminal => exact absurd h (not_of_terminal h').1
  case terminal.candidate => exact absurd h' (not_of_terminal h).1
  case leased.terminal => exact absurd h.1 (not_of_terminal h').2
  case terminal.leased => exact absurd h'.1 (not_of_terminal h).2
  case reapable.terminal => exact absurd h.1 (not_of_terminal h').2
  case terminal.reapable => exact absurd h'.1 (not_of_terminal h).2

/-- **Some filter finds a stage** that has a lease if it is being processed. -/
lemma exists_holds (hfailed : input.includeFailed = true)
    (hprerequisite : ∀ prerequisite ∈ input.prerequisiteStage,
      (n.stage prerequisite.stage).status = prerequisite.status)
    (hleased : (n.stage input.stage).IsLeased) :
    ∃ situation : StageSituation, situation.Holds input now n := by
  obtain hlt | hle := Nat.lt_or_ge (n.stage input.stage).attempts input.maxAttempts
  · cases hs : (n.stage input.stage).status with
    | pending => exact ⟨candidate, .inl ⟨hs, hlt⟩, hprerequisite⟩
    | processing =>
      obtain ⟨lease, hlease⟩ := Option.isSome_iff_exists.mp (hleased hs)
      by_cases hnow : lease < now
      · refine ⟨candidate, .inr (.inl ⟨⟨hs, ?_⟩, hlt⟩), hprerequisite⟩
        rintro lease' hlease'
        cases Option.some.inj (hlease.symm.trans hlease')
        exact hnow
      · exact ⟨leased, hs, lease, hlease, Nat.le_of_not_lt hnow⟩
    | completed => exact ⟨terminal, .inl hs⟩
    | failed =>
      by_cases hretriable : (n.stage input.stage).FailedRetriably
      · exact ⟨candidate, .inr (.inr ⟨hfailed, hretriable, hlt⟩), hprerequisite⟩
      · exact ⟨terminal, .inr (.inr (.inl ⟨hs, .inl hretriable⟩))⟩
    | skipped => exact ⟨terminal, .inr (.inl hs)⟩
  · cases hs : (n.stage input.stage).status with
    | pending => exact ⟨terminal, .inr (.inr (.inr ⟨hs, hle⟩))⟩
    | processing =>
      obtain ⟨lease, hlease⟩ := Option.isSome_iff_exists.mp (hleased hs)
      by_cases hnow : lease < now
      · exact ⟨reapable, hs, hle, lease, hlease, hnow⟩
      · exact ⟨leased, hs, lease, hlease, Nat.le_of_not_lt hnow⟩
    | completed => exact ⟨terminal, .inl hs⟩
    | failed => exact ⟨terminal, .inr (.inr (.inl ⟨hs, .inr hle⟩))⟩
    | skipped => exact ⟨terminal, .inr (.inl hs)⟩

end StageSituation

/-! ## Every run -/

namespace ProcessingDb

/-- A claim is possible for a node that satisfies its condition. -/
lemma exists_step_claim_iff {s : ProcessingDb} {n : TrackedNode} {input : ClaimInput}
    {runId : String} (hn : s.nodes.lookup input.nodeId = some n) (hvalid : input.IsValid)
    (hfresh : runId ∉ s.drawn) :
    (∃ s', s.step (.claim input runId) = some s') ↔ input.Matches s.clock n.toProcessedNode := by
  have hstep : s.step (.claim input runId) = s.applyTo input.nodeId (.claim input runId) :=
    if_neg hfresh
  rw [hstep]
  constructor
  · rintro ⟨s', hs'⟩
    obtain ⟨n', hn', hguard, -⟩ := applyTo_eq_some hs'
    cases Option.some.inj (hn.symm.trans hn')
    exact hguard.2
  · intro hmatches
    have hguard : (ProcessingOp.claim input runId).Guard s.clock n.toProcessedNode :=
      ⟨hvalid, hmatches⟩
    unfold applyTo
    rw [hn]
    exact ⟨_, if_pos hguard⟩

/-- **Listing and claiming agree**: what a worker lists with the failed stages it can claim at
the same time, and nothing else; and whatever workers and operators have done, a stage whose
prerequisite is met is in one of four situations. It never runs out of attempts while it is
pending. -/
theorem candidates_agree :
    (∀ (s : ProcessingDb) (nodeId : String) (n : TrackedNode), s.nodes.lookup nodeId = some n →
      ∀ input : CandidatesInput, input.includeFailed = true → 1 ≤ input.maxAttempts →
      ∀ workerId leaseMs runId, 1000 ≤ leaseMs → runId ∉ s.drawn →
      (input.Matches s.clock n.toProcessedNode
        ↔ ∃ s', s.step (.claim (input.toClaim nodeId workerId leaseMs) runId) = some s'))
    ∧ ∀ actions s, Run.follow step {} actions = some s →
      ∀ nodeId n, s.nodes.lookup nodeId = some n →
      ∀ input : CandidatesInput, input.includeFailed = true → 1 ≤ input.maxAttempts →
      (∀ prerequisite ∈ input.prerequisiteStage,
        (n.stage prerequisite.stage).status = prerequisite.status) →
      ∀ now, (∃! situation : StageSituation, situation.Holds input now n.toProcessedNode)
        ∧ ¬ ((n.stage input.stage).status = .pending
          ∧ input.maxAttempts ≤ (n.stage input.stage).attempts) := by
  refine ⟨?_, ?_⟩
  · intro s nodeId n hn input hfailed hpos workerId leaseMs runId hlease hfresh
    have hvalid : (input.toClaim nodeId workerId leaseMs).IsValid := by
      refine ⟨hlease, ?_⟩
      rintro _ ⟨⟩
      exact hpos
    rw [exists_step_claim_iff hn hvalid hfresh]
    exact CandidatesInput.matches_iff_claim hfailed nodeId workerId leaseMs s.clock _
  · intro actions s h nodeId n hn input hfailed hpos hprerequisite now
    have hleased := (TrackedNode.rowInvariant_isLeased.follow (fun _ _ _ _ _ => trivial)
      holds_empty h).rows nodeId n hn input.stage
    have huntried := (TrackedNode.rowInvariant_isUntried.follow (fun _ _ _ _ _ => trivial)
      holds_empty h).rows nodeId n hn input.stage
    obtain ⟨situation, hsituation⟩ := StageSituation.exists_holds hfailed hprerequisite hleased
    refine ⟨⟨situation, hsituation, fun other hother => ?_⟩, ?_⟩
    · exact StageSituation.eq_of_holds hother hsituation
    · rintro ⟨hpending, hle⟩
      rw [huntried hpending] at hle
      omega

end ProcessingDb
