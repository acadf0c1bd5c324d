import IntuitionCore.Processing.Statements

/-!
# Results are fresh

A run works on the row that its claim returned. Much later it reports a result, and by
then an operator may have put the stages before it back into the queue. The result is
fresh if what it was computed from is what is stored.

A worker claims a stage only after the one before it has completed, and a stage that
has ended stays as it is until a requeue takes it. A requeue that cascades takes the
later stages too, and with them the runs that still hold old inputs. So while a stage
is under way or complete, the stages before it are settled, and they are those of the
row that its run was given.
-/

namespace NodeProcessingStage

/-- The stages that come before a stage. -/
def upstreamStages (stage : NodeProcessingStage) : List NodeProcessingStage :=
  nodeProcessingStages.take (nodeProcessingStages.idxOf stage)

end NodeProcessingStage

/-- What workers do, and requeues that cascade. -/
def ProcessingOp.Cascades : ProcessingOp → Prop
  | .claim input _ => input.prerequisiteStage = input.stage.workerPrerequisite
  | .complete stage _ data _ => stage.hasResult = true → data.isSome
  | .requeue input _ => input.cascadeDownstream = true
  | .reset _ _ => False
  | _ => True

/-- A stage has ended, and will not be claimed again as it is. -/
def StageColumns.IsSettled (c : StageColumns) : Prop :=
  c.status ≠ .pending ∧ c.status ≠ .processing ∧ ¬ c.FailedRetriably

/-- A stage is being processed, or complete. -/
def StageColumns.IsUnderWay (c : StageColumns) : Prop :=
  c.status = .processing ∨ c.status = .completed

/-- **A stage is fresh**: the last run that claimed it was given a row with the results
that are stored for the stages before it, by the same runs; and if the stage is
complete, the run has reported the result that is stored. -/
def TrackedNode.IsFresh (n : TrackedNode) (stage : NodeProcessingStage) : Prop :=
  ∃ runId now leaseExpiresAt row, n.runId? stage = some runId
    ∧ .claimed stage runId now leaseExpiresAt row ∈ n.history
    ∧ (∀ input ∈ stage.upstreamStages, (n.stage input).IsSettled
      ∧ (row.stage input).result = (n.stage input).result ∧ row.runId? input = n.runId? input)
    ∧ ((n.stage stage).status = .completed → ∃ data,
      .finished stage runId .completed data ∈ n.history
        ∧ (stage.hasResult = true → (n.stage stage).result = data))

/-! ## What an operation does to a settled stage -/

/-- A requeue that cascades takes the later stages too. -/
theorem RequeueInput.mem_stagesToReset {input : RequeueInput}
    (hcascade : input.cascadeDownstream = true) {stage earlier : NodeProcessingStage}
    (hearlier : earlier ∈ stage.upstreamStages) (h : earlier ∈ input.stagesToReset) :
    stage ∈ input.stagesToReset := by
  unfold stagesToReset at h ⊢
  rw [hcascade] at h ⊢
  revert h hearlier
  cases input.stage <;> cases stage <;> cases earlier <;> decide

namespace ProcessingOp

variable {op : ProcessingOp} {now : ℕ} {n : ProcessedNode} {stage : NodeProcessingStage}

/-- A settled stage is left as it is, or only its status changes. -/
structure Keeps (op : ProcessingOp) (now : ℕ) (n : ProcessedNode) (stage : NodeProcessingStage) :
    Prop where
  isSettled : ((op.patch now n).stage stage).IsSettled
  result : ((op.patch now n).stage stage).result = (n.stage stage).result
  runId? : (op.patch now n).runId? stage = n.runId? stage

theorem Keeps.of_eq (h : (n.stage stage).IsSettled)
    (hstage : (op.patch now n).stage stage = n.stage stage)
    (hrun : (op.patch now n).runId? stage = n.runId? stage) : op.Keeps now n stage :=
  ⟨hstage ▸ h, by rw [hstage], hrun⟩

/-- What a report writes to another stage is no concern of a settled one. -/
theorem ne_of_guard {first : NodeProcessingStage} (h : (n.stage stage).IsSettled)
    (hprocessing : (n.stage first).status = .processing) : stage ≠ first := by
  rintro rfl
  exact h.2.1 hprocessing

theorem not_matches_of_isSettled {input : ClaimInput} (h : (n.stage stage).IsSettled)
    (hmatches : input.Matches now n) : stage ≠ input.stage := by
  rintro rfl
  obtain hpending | hfailed | habandoned := hmatches.2.2
  · exact h.1 hpending
  · exact h.2.2 hfailed
  · exact h.2.1 habandoned.1

/-- A settled stage that is skipped is settled. -/
theorem isSettled_skipStages (h : (n.stage stage).IsSettled) (stages : List NodeProcessingStage)
    (reason : String) (now : ℕ) : ((n.skipStages stages reason now).stage stage).IsSettled
      ∧ ((n.skipStages stages reason now).stage stage).result = (n.stage stage).result := by
  rw [n.stage_skipStages stages reason now stage]
  split
  · exact ⟨⟨nofun, nofun, fun hfailed => nomatch hfailed.1⟩, rfl⟩
  · exact ⟨h, rfl⟩

/-- A stage that the sweep ends is settled. -/
theorem isSettled_reap (input : ReapInput) (began : ℕ) :
    ((input.patch began n).stage input.stage).IsSettled := by
  rw [ProcessedNode.stage_reap]
  refine ⟨?_, ?_, ?_⟩
  · rintro ⟨⟩
  · rintro ⟨⟩
  · rintro ⟨-, error, ⟨⟩, hretriable⟩
    exact Bool.false_ne_true hretriable

/-- **A settled stage is kept**, unless a requeue takes it. -/
theorem keeps_of_isSettled (hop : op.Cascades) (hguard : op.Guard now n)
    (h : (n.stage stage).IsSettled) :
    (∃ input began, op = .requeue input began ∧ stage ∈ input.stagesToReset)
      ∨ op.Keeps now n stage := by
  have hpatched : ∀ {first : NodeProcessingStage} (columns : StageColumns), stage ≠ first →
      (n.patchStage first now columns).stage stage = n.stage stage :=
    fun columns hne => by simp [hne]
  cases op with
  | claim input runId =>
    have hne := not_matches_of_isSettled h hguard.2
    exact .inr (.of_eq h ((n.stage_claim input runId now stage).trans (if_neg hne))
      ((n.runId?_claim input runId now stage).trans (if_neg hne)))
  | renew first runId leaseMs =>
    exact .inr (.of_eq h (hpatched _ (ne_of_guard h hguard.1)) rfl)
  | complete first runId data promotedFields =>
    exact .inr (.of_eq h (hpatched _ (ne_of_guard h hguard.1)) rfl)
  | completeWithArtifacts runId artifactIds promotedFields =>
    exact .inr (.of_eq h (hpatched _ (ne_of_guard h hguard.1)) rfl)
  | fail first runId error => exact .inr (.of_eq h (hpatched _ (ne_of_guard h hguard.1)) rfl)
  | skip first runId reason => exact .inr (.of_eq h (hpatched _ (ne_of_guard h hguard.1)) rfl)
  | release first => exact .inr (.of_eq h (hpatched _ (ne_of_guard h hguard)) rfl)
  | skipWithDownstream first runId reason downstreamReason =>
    have hskip : (n.skip first reason now).stage stage = n.stage stage :=
      hpatched _ (ne_of_guard h hguard.1)
    obtain ⟨hsettled, hresult⟩ := isSettled_skipStages (hskip ▸ h)
      first.downstreamStages downstreamReason now
    exact .inr ⟨hsettled, hresult.trans (congrArg StageColumns.result hskip),
      (n.skip first reason now).runId?_skipStages _ _ _ _⟩
  | skipStages stages reason =>
    obtain ⟨hsettled, hresult⟩ := isSettled_skipStages h stages reason now
    exact .inr ⟨hsettled, hresult, n.runId?_skipStages stages reason now stage⟩
  | requeue input began =>
    by_cases hmem : stage ∈ input.stagesToReset
    · exact .inl ⟨input, began, rfl, hmem⟩
    · exact .inr (.of_eq h ((n.stage_requeue input began stage).trans (if_neg hmem))
        (n.runId?_requeue input began stage))
  | reset input began => exact hop.elim
  | reap input began =>
    by_cases hstage : stage = input.stage
    · subst hstage
      refine .inr ⟨isSettled_reap input began, ?_, rfl⟩
      rw [patch, n.stage_reap]
    · exact .inr (.of_eq h
        (n.stage_patchStage input.stage stage began _ |>.trans (if_neg hstage)) rfl)

/-- A stage was under way before an operation, and is as it was or its run has
reported. -/
structure Continues (op : ProcessingOp) (now : ℕ) (n : ProcessedNode)
    (stage : NodeProcessingStage) : Prop where
  isUnderWay : (n.stage stage).IsUnderWay
  runId? : (op.patch now n).runId? stage = n.runId? stage
  notMem : ∀ input began, op = .requeue input began → stage ∉ input.stagesToReset
  result : ((op.patch now n).stage stage).status = .completed →
    ((n.stage stage).status = .completed
      ∧ ((op.patch now n).stage stage).result = (n.stage stage).result)
    ∨ ∃ runId data, n.runId? stage = some runId
      ∧ .finished stage runId .completed data ∈ op.events now n
      ∧ (stage.hasResult = true → ((op.patch now n).stage stage).result = data)

/-- A stage that an operation leaves as it was. -/
theorem Continues.of_eq (h : ((op.patch now n).stage stage).IsUnderWay)
    (hstage : (op.patch now n).stage stage = n.stage stage)
    (hrun : (op.patch now n).runId? stage = n.runId? stage)
    (hnotMem : ∀ input began, op = .requeue input began → stage ∉ input.stagesToReset) :
    op.Continues now n stage :=
  ⟨hstage ▸ h, hrun, hnotMem, fun hcompleted => .inl ⟨hstage ▸ hcompleted, by rw [hstage]⟩⟩

/-- A stage that is under way was not skipped just now. -/
theorem skipStages_eq_of_isUnderWay {stages : List NodeProcessingStage} {reason : String}
    (h : ((n.skipStages stages reason now).stage stage).IsUnderWay) :
    (n.skipStages stages reason now).stage stage = n.stage stage := by
  rw [n.stage_skipStages stages reason now stage] at h ⊢
  split at h
  · exact absurd h (by rintro (h | h) <;> cases h)
  · next hidle => rw [if_neg hidle]

/-- A stage that is under way is not one that has just ended otherwise. -/
theorem ne_of_isUnderWay {first : NodeProcessingStage} (status : NodeProcessingStatus)
    {error : NodeProcessingError} (hstatus : status ≠ .processing ∧ status ≠ .completed)
    (h : ((n.failOrSkip first status error now).stage stage).IsUnderWay) : stage ≠ first := by
  rintro rfl
  simp only [ProcessedNode.failOrSkip, ProcessedNode.stage_patchStage, if_true] at h
  obtain h | h := h
  · exact hstatus.1 h
  · exact hstatus.2 h

/-- **What is under way was claimed now, or was under way before.** -/
theorem continues_of_isUnderWay (hop : op.Cascades) (hguard : op.Guard now n)
    (h : ((op.patch now n).stage stage).IsUnderWay) :
    (∃ input runId, op = .claim input runId ∧ input.stage = stage) ∨ op.Continues now n stage := by
  have hpatched : ∀ {first : NodeProcessingStage} (now : ℕ) (columns : StageColumns),
      stage ≠ first → (n.patchStage first now columns).stage stage = n.stage stage :=
    fun now columns hne => by simp [hne]
  cases op with
  | claim input runId =>
    by_cases hstage : stage = input.stage
    · exact .inl ⟨input, runId, rfl, hstage.symm⟩
    · exact .inr (.of_eq h ((n.stage_claim input runId now stage).trans (if_neg hstage))
        ((n.runId?_claim input runId now stage).trans (if_neg hstage)) nofun)
  | renew first runId leaseMs =>
    refine .inr ?_
    by_cases hstage : stage = first
    · subst hstage
      refine ⟨.inl hguard.1, rfl, nofun, fun hcompleted => ?_⟩
      simp [patch, ProcessedNode.renew, hguard.1] at hcompleted
    · exact .of_eq h (hpatched now _ hstage) rfl nofun
  | release first =>
    refine .inr ?_
    by_cases hstage : stage = first
    · subst hstage
      have hprocessing : (n.stage stage).status = .processing := hguard
      refine ⟨.inl hprocessing, rfl, nofun, fun hcompleted => ?_⟩
      simp [patch, ProcessedNode.release, hprocessing] at hcompleted
    · exact .of_eq h (hpatched now _ hstage) rfl nofun
  | complete first runId data promotedFields =>
    refine .inr ?_
    by_cases hstage : stage = first
    · subst hstage
      refine ⟨.inl hguard.1, rfl, nofun, fun _ => .inr ⟨runId, data, hguard.2,
        List.mem_singleton_self _, fun hresult => ?_⟩⟩
      obtain ⟨value, rfl⟩ := Option.isSome_iff_exists.mp (hop hresult)
      simp [patch, ProcessedNode.complete, hresult]
    · exact .of_eq h (hpatched now _ hstage) rfl nofun
  | completeWithArtifacts runId artifactIds promotedFields =>
    refine .inr ?_
    by_cases hstage : stage = .enrichment
    · subst hstage
      exact ⟨.inl hguard.1, rfl, nofun, fun _ => .inr ⟨runId, none, hguard.2,
        List.mem_cons_self, nofun⟩⟩
    · exact .of_eq h (hpatched now _ hstage) rfl nofun
  | fail first runId error =>
    have hne := ne_of_isUnderWay .failed ⟨nofun, nofun⟩ h
    exact .inr (.of_eq h (hpatched now _ hne) rfl nofun)
  | skip first runId reason =>
    have hne := ne_of_isUnderWay .skipped ⟨nofun, nofun⟩ h
    exact .inr (.of_eq h (hpatched now _ hne) rfl nofun)
  | skipWithDownstream first runId reason downstreamReason =>
    have hkept := skipStages_eq_of_isUnderWay h
    have hskip : ((n.skip first reason now).stage stage).IsUnderWay := hkept ▸ h
    have hne := ne_of_isUnderWay .skipped ⟨nofun, nofun⟩ hskip
    exact .inr (.of_eq h (hkept.trans (hpatched now _ hne))
      ((n.skip first reason now).runId?_skipStages _ _ _ _) nofun)
  | skipStages stages reason =>
    exact .inr (.of_eq h (skipStages_eq_of_isUnderWay h)
      (n.runId?_skipStages stages reason now stage) nofun)
  | requeue input began =>
    have hstage := n.stage_requeue input began stage
    have hnotMem : stage ∉ input.stagesToReset := fun hmem => by
      rw [if_pos hmem] at hstage
      unfold patch at h
      rw [hstage] at h
      obtain h | h := h <;> cases h
    refine .inr (.of_eq h (hstage.trans (if_neg hnotMem)) (n.runId?_requeue input began stage) ?_)
    rintro _ _ ⟨⟩
    exact hnotMem
  | reset input began => exact hop.elim
  | reap input began =>
    have hne := ne_of_isUnderWay .failed ⟨nofun, nofun⟩ h
    exact .inr (.of_eq h (hpatched began _ hne) rfl nofun)

end ProcessingOp

/-! ## Every stage that is under way is fresh -/

theorem StageColumns.isSettled_of_completed {c : StageColumns} (h : c.status = .completed) :
    c.IsSettled := by
  refine ⟨?_, ?_, fun hfailed => ?_⟩
  · rw [h]
    nofun
  · rw [h]
    nofun
  · have hfailed := hfailed.1
    rw [h] at hfailed
    cases hfailed

/-- **A worker claims a stage when those before it are settled.** -/
theorem TrackedNode.isSettled_of_prerequisite {n : TrackedNode} {stage : NodeProcessingStage}
    (hfresh : ∀ stage, (n.stage stage).IsUnderWay → n.IsFresh stage)
    (h : ∀ prerequisite ∈ stage.workerPrerequisite,
      (n.stage prerequisite.stage).status = prerequisite.status) :
    ∀ earlier ∈ stage.upstreamStages, (n.stage earlier).IsSettled := by
  cases stage with
  | parse => nofun
  | classification =>
    intro earlier hearlier
    obtain rfl := List.mem_singleton.mp hearlier
    exact StageColumns.isSettled_of_completed (h _ rfl)
  | enrichment =>
    have hclassified := h _ rfl
    obtain ⟨_, _, _, _, -, -, hinputs, -⟩ := hfresh .classification (.inr hclassified)
    intro earlier hearlier
    obtain rfl | hearlier := List.mem_cons.mp hearlier
    · exact (hinputs .parse (List.mem_singleton_self _)).1
    · obtain rfl := List.mem_singleton.mp hearlier
      exact StageColumns.isSettled_of_completed hclassified

/-- What a worker is given when it claims a stage is fresh. -/
theorem TrackedNode.isFresh_claim {n : TrackedNode} {input : ClaimInput} {runId : String} {now : ℕ}
    (hfresh : ∀ stage, (n.stage stage).IsUnderWay → n.IsFresh stage)
    (hop : (ProcessingOp.claim input runId).Cascades)
    (hmatches : input.Matches now n.toProcessedNode) :
    ((ProcessingOp.claim input runId).apply now n).IsFresh input.stage := by
  have hsettled := TrackedNode.isSettled_of_prerequisite hfresh fun prerequisite hprerequisite =>
    hmatches.2.1 prerequisite (hop ▸ hprerequisite)
  refine ⟨runId, now, now + input.leaseMs, n.claim input runId now, ?_, List.mem_cons_self,
    fun earlier hearlier => ⟨?_, rfl, rfl⟩, fun hcompleted => ?_⟩
  · exact (n.runId?_claim input runId now input.stage).trans (if_pos rfl)
  · have hne : earlier ≠ input.stage := by
      rintro rfl
      revert hearlier
      cases input.stage <;> decide
    show ((n.claim input runId now).stage earlier).IsSettled
    rw [n.stage_claim input runId now earlier, if_neg hne]
    exact hsettled earlier hearlier
  · have hprocessing : ((n.claim input runId now).stage input.stage).status = .processing := by
      rw [n.stage_claim input runId now input.stage, if_pos rfl]
    exact nomatch hprocessing.symm.trans hcompleted

/-- **Operations keep the stages fresh.** -/
theorem TrackedNode.rowInvariant_isFresh : ProcessingDb.RowInvariant ProcessingOp.Cascades
    (fun _ n => ∀ stage, (n.stage stage).IsUnderWay → n.IsFresh stage) where
  new drawn now data dataHex stage h := by
    obtain h | h := h <;> cases h
  mono drawn drawn' n _ h := h
  apply drawn now n op hop hguard _ h stage hunderWay := by
    obtain ⟨input, runId, rfl, rfl⟩ | hcontinues := op.continues_of_isUnderWay hop hguard hunderWay
    · exact TrackedNode.isFresh_claim h hop hguard.2
    · obtain ⟨runId, claimedAt, lease, row, hrun, hclaimed, hinputs, hcompleted⟩ :=
        h stage hcontinues.isUnderWay
      refine ⟨runId, claimedAt, lease, row, hcontinues.runId?.trans hrun,
        List.mem_append_right _ hclaimed, fun input hinput => ?_, fun hcompleted' => ?_⟩
      · obtain ⟨hsettled, hresult, hinputRun⟩ := hinputs input hinput
        obtain ⟨requeue, began, rfl, hmem⟩ | hkeeps := op.keeps_of_isSettled hop hguard hsettled
        · exact absurd (requeue.mem_stagesToReset hop hinput hmem)
            (hcontinues.notMem requeue began rfl)
        · exact ⟨hkeeps.isSettled, hresult.trans hkeeps.result.symm,
            hinputRun.trans hkeeps.runId?.symm⟩
      · obtain ⟨hstatus, hresult⟩ | ⟨runId', data, hrun', hfinished, hdata⟩ :=
          hcontinues.result hcompleted'
        · obtain ⟨data, hfinished, hdata⟩ := hcompleted hstatus
          exact ⟨data, List.mem_append_right _ hfinished, fun h => hresult.trans (hdata h)⟩
        · obtain rfl := Option.some.inj (hrun.symm.trans hrun')
          exact ⟨data, List.mem_append_left _ hfinished, hdata⟩

open ProcessingDb

/-- **Results are fresh.** In any run in which workers claim their stages after the
stages before them, and requeues cascade, whatever else the workers, the sweeps and the
requeues do, and in whatever order: the result of a stage that is complete was reported
by a run that was given, when it claimed the stage, the results that are stored for the
stages before it, by the runs that produced them. -/
theorem results_fresh {actions : List Action} {s : ProcessingDb}
    (hactions : ∀ a ∈ actions, a.Only ProcessingOp.Cascades)
    (h : Run.follow step {} actions = some s) {nodeId : String} {n : TrackedNode}
    (hn : s.nodes.lookup nodeId = some n) (stage : NodeProcessingStage)
    (hcompleted : (n.stage stage).status = .completed) :
    ∃ runId now leaseExpiresAt row data, n.runId? stage = some runId
      ∧ .claimed stage runId now leaseExpiresAt row ∈ n.history
      ∧ .finished stage runId .completed data ∈ n.history
      ∧ (stage.hasResult = true → (n.stage stage).result = data)
      ∧ ∀ earlier ∈ stage.upstreamStages, (row.stage earlier).result = (n.stage earlier).result
        ∧ row.runId? earlier = n.runId? earlier := by
  have hholds := TrackedNode.rowInvariant_isFresh.follow hactions holds_empty h
  obtain ⟨runId, now, lease, row, hrun, hclaimed, hinputs, hreported⟩ :=
    hholds.rows nodeId n hn stage (.inr hcompleted)
  obtain ⟨data, hfinished, hdata⟩ := hreported hcompleted
  exact ⟨runId, now, lease, row, data, hrun, hclaimed, hfinished, hdata,
    fun earlier hearlier => (hinputs earlier hearlier).2⟩

/-- A node is parsed, put back, and parsed again and classified. -/
def classifiedAgain : List Action :=
  [.ensureNode "0x01" (some "hello") none,
    .claim (NodeProcessingStage.parse.workerClaim "0x01" "worker-1" 60_000 5) "run-1",
    .report "0x01" (.complete .parse "run-1" (some (.string "text")) {}),
    .requeue { stage := .parse, nodeId := "0x01", reason := "manual" }, .update 0,
    .claim (NodeProcessingStage.parse.workerClaim "0x01" "worker-1" 60_000 5) "run-2",
    .report "0x01" (.complete .parse "run-2" (some (.string "url")) {}),
    .claim (NodeProcessingStage.classification.workerClaim "0x01" "worker-2" 60_000 5) "run-3",
    .report "0x01" (.complete .classification "run-3" (some (.string "Thing")) {})]

/-- It was classified from what it was parsed to last. -/
theorem results_fresh_classifiedAgain : ∃ s n, Run.follow step {} classifiedAgain = some s
    ∧ s.nodes.lookup "0x01" = some n ∧ n.runId? .parse = some "run-2"
    ∧ ∃ now leaseExpiresAt row,
      .claimed .classification "run-3" now leaseExpiresAt row ∈ n.history
        ∧ row.runId? .parse = some "run-2" := by
  have hactions : ∀ a ∈ classifiedAgain, a.Only ProcessingOp.Cascades := by
    simp [classifiedAgain, Action.Only, Action.op?, ProcessingOp.Cascades,
      NodeProcessingStage.workerClaim]
  have hrun : ((Run.follow step {} classifiedAgain).bind fun s => s.nodes.lookup "0x01").map
      (fun n => ((n.stage .classification).status, n.runId? .parse, n.runId? .classification))
        = some (.completed, some "run-2", some "run-3") := by
    decide +kernel
  obtain ⟨n, hn, heq⟩ := Option.map_eq_some_iff.mp hrun
  obtain ⟨s, hs, hlookup⟩ := Option.bind_eq_some_iff.mp hn
  simp only [Prod.mk.injEq] at heq
  obtain ⟨hcompleted, hparse, hclassification⟩ := heq
  obtain ⟨runId, now, lease, row, data, hlast, hclaimed, -, -, hinputs⟩ :=
    results_fresh hactions hs hlookup .classification hcompleted
  obtain rfl := Option.some.inj (hlast.symm.trans hclassification)
  exact ⟨s, n, hs, hlookup, hparse, now, lease, row, hclaimed,
    (hinputs .parse (List.mem_singleton_self _)).2.trans hparse⟩
