import IntuitionCore.Processing.Statements

/-!
# No stage is orphaned

A worker takes up a stage only after the stage before it has completed. A stage that
waits behind one that was skipped is *orphaned*: no query returns it, and no claim takes
it. So a worker that skips a stage skips those after it in the same transaction.

A requeue and a reset put a stage back into the queue whatever the stage before it is,
and so does a run that fails, with an error that may go away, at a stage that it claimed
some time ago. Each orphans the stage if the one before it is skipped by then, and
nothing else does.
-/

namespace ProcessedNode

/-- A stage waits for its worker. -/
def IsWaiting (n : ProcessedNode) (stage : NodeProcessingStage) : Prop :=
  (n.stage stage).status = .pending ∨ (n.stage stage).FailedRetriably

/-- The stage before a stage was skipped. -/
def IsCutOff (n : ProcessedNode) (stage : NodeProcessingStage) : Prop :=
  ∃ prerequisite ∈ stage.workerPrerequisite, (n.stage prerequisite.stage).status = .skipped

/-- **A stage is orphaned**: it waits behind one that was skipped. -/
def IsOrphaned (n : ProcessedNode) (stage : NodeProcessingStage) : Prop :=
  n.IsCutOff stage ∧ n.IsWaiting stage

instance (n : ProcessedNode) (stage : NodeProcessingStage) : Decidable (n.IsWaiting stage) :=
  inferInstanceAs (Decidable (_ ∨ _))

instance (n : ProcessedNode) (stage : NodeProcessingStage) : Decidable (n.IsCutOff stage) :=
  inferInstanceAs (Decidable (∃ prerequisite ∈ stage.workerPrerequisite, _))

instance (n : ProcessedNode) (stage : NodeProcessingStage) : Decidable (n.IsOrphaned stage) :=
  inferInstanceAs (Decidable (_ ∧ _))

variable {n : ProcessedNode} {stage : NodeProcessingStage}

/-- The stage before a stage that is cut off has not completed. -/
theorem IsCutOff.not_completed (h : n.IsCutOff stage) :
    ¬ ∀ prerequisite ∈ stage.workerPrerequisite,
      (n.stage prerequisite.stage).status = prerequisite.status := by
  obtain ⟨prerequisite, hmem, hskipped⟩ := h
  intro hstatus
  have hcompleted := hstatus prerequisite hmem
  rw [hskipped] at hcompleted
  cases stage <;> cases hmem <;> cases hcompleted

/-- **What is orphaned is not a candidate.** -/
theorem IsOrphaned.not_candidate (h : n.IsOrphaned stage) (maxAttempts now : ℕ) :
    ¬ (stage.workerCandidates maxAttempts).Matches now n :=
  fun hmatches => h.1.not_completed hmatches.2

/-- **What is orphaned is not claimed.** -/
theorem IsOrphaned.not_claim (h : n.IsOrphaned stage) (nodeId workerId : String)
    (leaseMs maxAttempts now : ℕ) :
    ¬ (stage.workerClaim nodeId workerId leaseMs maxAttempts).Matches now n :=
  fun hmatches => h.1.not_completed hmatches.2.1

end ProcessedNode

/-! ## What workers and commands do -/

namespace ProcessingOp

/-- What the workers, the sweep and the commands do: workers claim their stages after
those before them, and those that skip a stage with others after it skip these as
well. -/
def Cascading : ProcessingOp → Prop
  | .claim input _ => input.prerequisiteStage = input.stage.workerPrerequisite
  | .skip stage _ _ => stage.downstreamStages = []
  | .skipStages _ _ => False
  | _ => True

/-- The stage that an operation puts back into the queue, the first of them if it puts
back several. -/
def putsBack : ProcessingOp → Option NodeProcessingStage
  | .fail stage _ error => if error.retriable then some stage else none
  | .requeue input _ => some input.stage
  | .reset input _ => some input.stage
  | _ => none

end ProcessingOp

/-! ## What an operation does to waiting stages -/

namespace NodeProcessingStage

/-- A stage comes after its prerequisite, and after whatever that comes after. -/
theorem mem_downstreamStages {stage first : NodeProcessingStage}
    {prerequisite : NodeProcessingPrerequisite} (h : prerequisite ∈ stage.workerPrerequisite)
    (hfirst : prerequisite.stage ∈ first :: first.downstreamStages) :
    stage ∈ first.downstreamStages := by
  revert hfirst
  cases stage <;> cases h <;> cases first <;> decide

/-- A stage does not come after itself. -/
theorem notMem_downstreamStages (stage : NodeProcessingStage) :
    stage ∉ stage.downstreamStages := by
  cases stage <;> decide

/-- What a stage comes after is its prerequisite, or comes before that. -/
theorem prerequisite_of_mem_downstreamStages {stage first : NodeProcessingStage}
    (h : stage ∈ first.downstreamStages) :
    ∀ prerequisite ∈ stage.workerPrerequisite,
      prerequisite.stage ∈ first :: first.downstreamStages := by
  revert h
  cases stage <;> cases first <;> decide

end NodeProcessingStage

namespace ProcessedNode

variable {n m : ProcessedNode} {stage first : NodeProcessingStage}

/-- Where nothing waits among some stages, and nothing waits behind them that was not cut
off before, what is orphaned was so before. -/
theorem IsOrphaned.of_notWaiting (h : m.IsOrphaned stage) (stages : List NodeProcessingStage)
    (hout : ∀ stage ∉ stages, m.stage stage = n.stage stage)
    (hin : ∀ stage ∈ stages, ¬ m.IsWaiting stage)
    (hnext : ∀ stage ∉ stages, ∀ prerequisite ∈ stage.workerPrerequisite,
      prerequisite.stage ∈ stages → (m.stage prerequisite.stage).status ≠ .skipped) :
    n.IsOrphaned stage := by
  obtain ⟨⟨prerequisite, hmem, hskipped⟩, hwaiting⟩ := h
  have hstage : stage ∉ stages := fun hstage => hin stage hstage hwaiting
  have hbefore : prerequisite.stage ∉ stages :=
    fun hbefore => hnext stage hstage prerequisite hmem hbefore hskipped
  refine ⟨⟨prerequisite, hmem, ?_⟩, ?_⟩
  · rwa [← hout _ hbefore]
  · unfold IsWaiting at hwaiting ⊢
    rwa [← hout stage hstage]

/-- **Where stages are put back, with those between them, the first of them is orphaned
exactly if it is cut off**, and no other one is that was not. -/
theorem noOrphan_iff_of_putBack (h : ∀ stage, ¬ n.IsOrphaned stage)
    (stages : List NodeProcessingStage) (hfirst : first ∈ stages)
    (hstages : ∀ stage ∈ stages, stage = first ∨ stage ∈ first.downstreamStages
      ∧ ∀ prerequisite ∈ stage.workerPrerequisite, prerequisite.stage ∈ stages)
    (hin : ∀ stage ∈ stages, m.IsWaiting stage ∧ (m.stage stage).status ≠ .skipped)
    (hout : ∀ stage ∉ stages, m.stage stage = n.stage stage) :
    (∀ stage, ¬ m.IsOrphaned stage) ↔ ¬ n.IsCutOff first := by
  have hbefore : ∀ prerequisite ∈ first.workerPrerequisite, prerequisite.stage ∉ stages := by
    intro prerequisite hmem hbefore
    have hafter : first ∈ first.downstreamStages := by
      refine NodeProcessingStage.mem_downstreamStages hmem ?_
      obtain heq | ⟨hdownstream, -⟩ := hstages _ hbefore
      · exact List.mem_cons.mpr (.inl heq)
      · exact List.mem_cons_of_mem _ hdownstream
    exact first.notMem_downstreamStages hafter
  constructor
  · rintro hnone ⟨prerequisite, hmem, hskipped⟩
    refine hnone first ⟨⟨prerequisite, hmem, ?_⟩, (hin first hfirst).1⟩
    rwa [hout _ (hbefore prerequisite hmem)]
  · rintro hattached stage ⟨⟨prerequisite, hmem, hskipped⟩, hwaiting⟩
    have hleft : prerequisite.stage ∉ stages := fun hleft => (hin _ hleft).2 hskipped
    rw [hout _ hleft] at hskipped
    by_cases hstage : stage ∈ stages
    · obtain rfl | ⟨-, hprerequisite⟩ := hstages stage hstage
      · exact hattached ⟨prerequisite, hmem, hskipped⟩
      · exact hleft (hprerequisite prerequisite hmem)
    · refine h stage ⟨⟨prerequisite, hmem, hskipped⟩, ?_⟩
      unfold IsWaiting at hwaiting ⊢
      rwa [← hout stage hstage]

/-- A stage that is put back alone. -/
theorem noOrphan_patchStage_iff (h : ∀ stage, ¬ n.IsOrphaned stage) (now : ℕ)
    {columns : StageColumns} (hwaiting : columns.status = .pending ∨ columns.FailedRetriably) :
    (∀ stage, ¬ (n.patchStage first now columns).IsOrphaned stage) ↔ ¬ n.IsCutOff first := by
  refine noOrphan_iff_of_putBack h [first] (List.mem_singleton_self _)
    (fun stage hstage => .inl (List.mem_singleton.mp hstage)) (fun stage hstage => ?_)
    (fun stage hstage => by simp [List.mem_singleton.not.mp hstage])
  obtain rfl := List.mem_singleton.mp hstage
  have hcolumns : (n.patchStage stage now columns).stage stage = columns := by simp
  unfold IsWaiting
  rw [hcolumns]
  refine ⟨hwaiting, ?_⟩
  rintro hskipped
  obtain hpending | ⟨hfailed, -⟩ := hwaiting
  · cases hskipped.symm.trans hpending
  · cases hskipped.symm.trans hfailed

/-- A stage that does not wait. -/
theorem noOrphan_patchStage (h : ∀ stage, ¬ n.IsOrphaned stage) (now : ℕ) {columns : StageColumns}
    (hpending : columns.status ≠ .pending) (hfailed : ¬ columns.FailedRetriably)
    (hskipped : columns.status = .skipped → first.downstreamStages = [])
    (stage : NodeProcessingStage) :
    ¬ (n.patchStage first now columns).IsOrphaned stage := by
  have hcolumns : (n.patchStage first now columns).stage first = columns := by simp
  intro horphaned
  refine h stage (horphaned.of_notWaiting [first]
    (fun stage hstage => by simp [List.mem_singleton.not.mp hstage]) (fun stage hstage => ?_) ?_)
  · obtain rfl := List.mem_singleton.mp hstage
    unfold IsWaiting
    rw [hcolumns]
    exact not_or.mpr ⟨hpending, hfailed⟩
  · intro stage hstage prerequisite hmem hbefore
    obtain heq := List.mem_singleton.mp hbefore
    rw [heq, hcolumns]
    intro hskip
    have hafter : stage ∈ first.downstreamStages :=
      NodeProcessingStage.mem_downstreamStages hmem (List.mem_cons.mpr (.inl heq))
    rw [hskipped hskip] at hafter
    exact List.not_mem_nil hafter

/-- A stage that is skipped with those after it. -/
theorem noOrphan_skipWithDownstream (h : ∀ stage, ¬ n.IsOrphaned stage)
    (first : NodeProcessingStage) (reason downstreamReason : String) (now : ℕ)
    (stage : NodeProcessingStage) :
    ¬ ((n.skip first reason now).skipStages first.downstreamStages downstreamReason now).IsOrphaned
      stage := by
  intro horphaned
  refine h stage (horphaned.of_notWaiting (first :: first.downstreamStages) ?_ ?_ ?_)
  · intro stage hstage
    rw [stage_skipStages, if_neg fun hmem => hstage (List.mem_cons_of_mem _ hmem.1)]
    simp [skip, failOrSkip, List.ne_of_not_mem_cons hstage]
  · intro stage hstage hwaiting
    unfold IsWaiting at hwaiting
    rw [stage_skipStages] at hwaiting
    split at hwaiting
    · obtain hpending | ⟨hfailed, -⟩ := hwaiting
      · cases hpending
      · cases hfailed
    · next hidle =>
      have hidle' : ((n.skip first reason now).stage stage).status = .pending
          ∨ ((n.skip first reason now).stage stage).status = .failed := hwaiting.imp id And.left
      obtain rfl | hmem := List.mem_cons.mp hstage
      · simp [skip, failOrSkip] at hidle'
      · exact hidle ⟨hmem, hidle'⟩
  · intro stage hstage prerequisite hmem hbefore
    exact absurd (List.mem_cons_of_mem _ (NodeProcessingStage.mem_downstreamStages hmem hbefore))
      hstage

/-- A requeue. -/
theorem noOrphan_requeue_iff (h : ∀ stage, ¬ n.IsOrphaned stage) (input : RequeueInput) (now : ℕ) :
    (∀ stage, ¬ (input.patch now n).IsOrphaned stage) ↔ ¬ n.IsCutOff input.stage := by
  have hmem : ∀ stage, stage ∈ input.stagesToReset ↔ stage = input.stage
      ∨ input.cascadeDownstream = true ∧ stage ∈ input.stage.downstreamStages := by
    intro stage
    unfold RequeueInput.stagesToReset
    split <;> simp [*]
  refine noOrphan_iff_of_putBack h input.stagesToReset ((hmem _).mpr (.inl rfl))
    (fun stage hstage => ?_) (fun stage hstage => ?_) (fun stage hstage => ?_)
  · refine ((hmem stage).mp hstage).imp_right fun ⟨hcascade, hdownstream⟩ => ⟨hdownstream, ?_⟩
    intro prerequisite hprerequisite
    obtain heq | hbetween := List.mem_cons.mp
      (NodeProcessingStage.prerequisite_of_mem_downstreamStages hdownstream prerequisite
        hprerequisite)
    · exact (hmem _).mpr (.inl heq)
    · exact (hmem _).mpr (.inr ⟨hcascade, hbetween⟩)
  · unfold IsWaiting
    rw [stage_requeue, if_pos hstage]
    exact ⟨.inl rfl, nofun⟩
  · rw [stage_requeue, if_neg hstage]

end ProcessedNode

/-- **What an operation does to a node without orphans**: if it puts a stage back that is
cut off, it orphans that stage; otherwise it orphans none. -/
theorem ProcessingOp.noOrphan_iff {op : ProcessingOp} {now : ℕ} {n : ProcessedNode}
    (hop : op.Cascading) (hguard : op.Guard now n) (h : ∀ stage, ¬ n.IsOrphaned stage) :
    (∀ stage, ¬ (op.patch now n).IsOrphaned stage) ↔ ∀ stage ∈ op.putsBack, ¬ n.IsCutOff stage := by
  have hkept (hpatch : ∀ stage, ¬ (op.patch now n).IsOrphaned stage) (hnone : op.putsBack = none) :
      (∀ stage, ¬ (op.patch now n).IsOrphaned stage)
        ↔ ∀ stage ∈ op.putsBack, ¬ n.IsCutOff stage := by
    rw [hnone]
    exact iff_of_true hpatch nofun
  have hother {columns : StageColumns} (hne : columns.status ≠ .failed) :
      ¬ columns.FailedRetriably := fun hfailed => hne hfailed.1
  have hworking {stage : NodeProcessingStage} (hprocessing : (n.stage stage).status = .processing)
      {status : NodeProcessingStatus} (hne : .processing ≠ status) :
      (n.stage stage).status ≠ status := hprocessing ▸ hne
  cases op with
  | claim input runId =>
    exact hkept (ProcessedNode.noOrphan_patchStage h now nofun (hother nofun) nofun) rfl
  | renew stage runId leaseMs =>
    have hskipped : (n.stage stage).status ≠ .skipped := hworking hguard.1 nofun
    exact hkept (ProcessedNode.noOrphan_patchStage h now (hworking hguard.1 nofun)
      (hother (hworking hguard.1 nofun)) fun hskip => absurd hskip hskipped) rfl
  | complete stage runId data promotedFields =>
    exact hkept (ProcessedNode.noOrphan_patchStage h now nofun (hother nofun) nofun) rfl
  | completeWithArtifacts runId artifactIds promotedFields =>
    exact hkept (ProcessedNode.noOrphan_patchStage h now nofun (hother nofun) nofun) rfl
  | fail stage runId error =>
    by_cases hretriable : error.retriable = true
    · have hputs : (ProcessingOp.fail stage runId error).putsBack = some stage := if_pos hretriable
      rw [hputs]
      refine (ProcessedNode.noOrphan_patchStage_iff h now
        (.inr ⟨rfl, normalizeProcessingError error now, rfl, hretriable⟩)).trans ?_
      simp
    · refine hkept (ProcessedNode.noOrphan_patchStage h now nofun ?_ nofun) (if_neg hretriable)
      rintro ⟨-, error', ⟨⟩, hretriable'⟩
      exact hretriable hretriable'
  | skip stage runId reason =>
    exact hkept (ProcessedNode.noOrphan_patchStage h now nofun (hother nofun) fun _ => hop) rfl
  | skipStages stages reason => exact hop.elim
  | skipWithDownstream stage runId reason downstreamReason =>
    exact hkept (ProcessedNode.noOrphan_skipWithDownstream h stage reason downstreamReason now) rfl
  | requeue input began =>
    refine (ProcessedNode.noOrphan_requeue_iff h input began).trans ?_
    simp [putsBack]
  | reset input began =>
    refine (ProcessedNode.noOrphan_patchStage_iff h began (.inl rfl)).trans ?_
    simp [putsBack]
  | reap input began =>
    refine hkept (ProcessedNode.noOrphan_patchStage h began nofun ?_ nofun) rfl
    rintro ⟨-, error, ⟨⟩, hretriable⟩
    exact Bool.false_ne_true hretriable
  | release stage =>
    have hskipped : (n.stage stage).status ≠ .skipped := hworking hguard nofun
    exact hkept (ProcessedNode.noOrphan_patchStage h now (hworking hguard nofun)
      (hother (hworking hguard nofun)) fun hskip => absurd hskip hskipped) rfl

namespace ProcessingDb

/-- No row has an orphaned stage. -/
def NoOrphans (s : ProcessingDb) : Prop :=
  ∀ id n, s.nodes.lookup id = some n → ∀ stage, ¬ n.IsOrphaned stage

/-- **A stage is put back only if the one before it is not skipped.** -/
def PutsBackAttached (s : ProcessingDb) (a : Action) : Prop :=
  ∀ id ∈ s.nodes.keys, ∀ n ∈ s.nodes.lookup id, ∀ op ∈ a.operationOn s id n.toProcessedNode,
    ∀ stage ∈ op.putsBack, ¬ n.IsCutOff stage

instance (s : ProcessingDb) (a : Action) : Decidable (s.PutsBackAttached a) :=
  inferInstanceAs (Decidable (∀ id ∈ s.nodes.keys, ∀ n ∈ s.nodes.lookup id,
    ∀ op ∈ a.operationOn s id n.toProcessedNode, ∀ stage ∈ op.putsBack, ¬ n.IsCutOff stage))

variable {s s' : ProcessingDb} {a : Action}

/-- **A step orphans a stage** exactly if it puts one back that is cut off. -/
theorem noOrphans_step_iff (ha : a.Only ProcessingOp.Cascading) (hs : s.NoOrphans)
    (h : s.step a = some s') : s'.NoOrphans ↔ s.PutsBackAttached a := by
  refine forall_rows_step_iff (R := fun n => ∀ stage, ¬ n.IsOrphaned stage)
    (C := fun op n => ∀ stage ∈ op.putsBack, ¬ n.IsCutOff stage) h ?_ ?_ hs
  · rintro now data dataHex stage ⟨⟨prerequisite, -, hskipped⟩, -⟩
    cases hskipped
  · intro id n op hop hguard hn
    have hcascading : op.Cascading :=
      only_of_operationOn (fun sweep => by cases sweep <;> trivial) ha hop
    exact ProcessingOp.noOrphan_iff hcascading hguard hn

end ProcessingDb

open ProcessingDb

/-- **No stage is orphaned** in a run of the workers, the sweep for dead workers, requeues
and resets, exactly if each stage that a requeue, a reset or a failure puts back into the
queue is one before which no stage was skipped. -/
theorem no_orphans_iff {actions : List Action}
    (hactions : ∀ a ∈ actions, a.Only ProcessingOp.Cascading) :
    Run.Always step NoOrphans {} actions ↔ Run.EachStep step PutsBackAttached {} actions := by
  refine Run.always_iff_eachStep_of_forall (I := fun _ => True) (fun _ _ _ _ _ _ _ _ => trivial) ?_
    trivial ?_ hactions
  · exact fun s a s' ha _ hs h => noOrphans_step_iff ha hs h
  · intro id n hn
    cases hn

/-- A node without data is skipped, and put back from the first stage on. -/
def putBackFromParse : List Action :=
  [.ensureNode "0x01" none none,
    .claim (NodeProcessingStage.parse.workerClaim "0x01" "worker-1" 60_000 5) "run-1",
    .report "0x01" (.skipWithDownstream .parse "run-1" "Node has no data or dataHex to parse."
      "Parse skipped because node has no data or dataHex."),
    .requeue { stage := .parse, nodeId := "0x01", reason := "manual_kg_requeue_parsing" },
    .update 0]

/-- Nothing is orphaned. -/
theorem no_orphans_iff_putBackFromParse : Run.Always step NoOrphans {} putBackFromParse := by
  refine (no_orphans_iff ?_).mpr ?_
  · simp [putBackFromParse, Action.Only, Action.op?, ProcessingOp.Cascading,
      NodeProcessingStage.workerClaim]
  · decide +kernel

/-- A node without data is skipped, and put back from the second stage on. -/
def putBackFromClassification : List Action :=
  [.ensureNode "0x01" none none,
    .claim (NodeProcessingStage.parse.workerClaim "0x01" "worker-1" 60_000 5) "run-1",
    .report "0x01" (.skipWithDownstream .parse "run-1" "Node has no data or dataHex to parse."
      "Parse skipped because node has no data or dataHex."),
    .reset { stage := .classification, reason := some "manual_kg_backfill_classification" } ∅]

/-- **A stage may be orphaned**: a backfill of the second stage, with its default
options, takes a node whose first stage was skipped. -/
theorem putBackFromClassification_orphans : ¬ ∀ actions : List Action,
    (∀ a ∈ actions, a.Only ProcessingOp.Cascading) → Run.Always step NoOrphans {} actions := by
  intro h
  have hactions : ∀ a ∈ putBackFromClassification, a.Only ProcessingOp.Cascading := by
    simp [putBackFromClassification, Action.Only, Action.op?, ProcessingOp.Cascading,
      NodeProcessingStage.workerClaim]
  have hrun : ((Run.follow step {} putBackFromClassification).bind fun s =>
      s.nodes.lookup "0x01").map (fun n => decide (n.IsOrphaned .classification)) = some true := by
    decide +kernel
  obtain ⟨n, hn, horphaned⟩ := Option.map_eq_some_iff.mp hrun
  obtain ⟨s, hs, hlookup⟩ := Option.bind_eq_some_iff.mp hn
  exact (h _ hactions).of_follow hs "0x01" n hlookup .classification (of_decide_eq_true horphaned)
