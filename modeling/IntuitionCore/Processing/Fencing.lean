import IntuitionCore.Library.Lease
import IntuitionCore.Processing.Statements

/-!
# Stages are fenced

The columns of a stage are a lease. Its holder is in the shared JSON column, where a
requeue and a reset leave it; what they take is the status. So the row shows who holds
the lease only while the stage is being processed, and that is what the guards of the
reports ask for.

What was done to the stage is the history of a lease, each event of which was
permitted, and the row shows the lease that the history leads to. That is all that is
needed of the row: that a run which lost its claim cannot report again is a fact about
leases.
-/

/-- What an event means to the lease of a stage. -/
def ProcessingEvent.leaseEvent? (stage : NodeProcessingStage) :
    ProcessingEvent → Option (LeaseEvent String)
  | .claimed stage' runId now leaseExpiresAt _ =>
    if stage' = stage then some (.claimed runId now leaseExpiresAt) else none
  | .renewed stage' runId leaseExpiresAt =>
    if stage' = stage then some (.renewed runId leaseExpiresAt) else none
  | .finished stage' runId _ _ => if stage' = stage then some (.finished runId) else none
  | .stored _ _ => none
  | .requeued input => if stage ∈ input.stagesToReset then some .revoked else none
  | .reset input => if input.stage = stage then some .revoked else none
  | .reaped input => if input.stage = stage then some .revoked else none
  | .released stage' leaseExpiresAt =>
    if stage' = stage then some (.released leaseExpiresAt) else none

/-- What was done to the lease of a stage, newest first. -/
def TrackedNode.leaseHistory (n : TrackedNode) (stage : NodeProcessingStage) :
    List (LeaseEvent String) :=
  n.history.filterMap (ProcessingEvent.leaseEvent? stage)

/-- The lease of a stage, as its history has it. -/
def TrackedNode.lease? (n : TrackedNode) (stage : NodeProcessingStage) : Option (Lease String) :=
  Lease.replay (n.leaseHistory stage)

namespace ProcessedNode

/-- A row shows a lease of a stage. -/
def Shows (n : ProcessedNode) (stage : NodeProcessingStage) : Option (Lease String) → Prop
  | some l => (n.stage stage).status = .processing ∧ n.runId? stage = some l.holder
    ∧ (n.stage stage).leaseExpiresAt = some l.expiry
  | none => (n.stage stage).status ≠ .processing

variable {n n' : ProcessedNode} {stage : NodeProcessingStage} {lease : Option (Lease String)}
  {runId : String} {now : ℕ}

/-- A row that is being processed shows the lease of a run. -/
theorem Shows.exists_of_processing (h : n.Shows stage lease)
    (hprocessing : (n.stage stage).status = .processing) : ∃ l, lease = some l := by
  cases lease with
  | some l => exact ⟨l, rfl⟩
  | none => exact absurd hprocessing h

/-- The run that a guard asks for holds the lease. -/
theorem Shows.holder_of_guard (h : n.Shows stage lease) (hguard : n.StageRunGuard stage runId) :
    ∃ l ∈ lease, l.holder = runId := by
  obtain ⟨l, rfl⟩ := h.exists_of_processing hguard.1
  exact ⟨l, rfl, Option.some.inj (h.2.1.symm.trans hguard.2)⟩

/-- What a row shows is in its columns of the stage. -/
theorem Shows.congr (h : n.Shows stage lease) (hstage : n'.stage stage = n.stage stage)
    (hrun : n'.runId? stage = n.runId? stage) : n'.Shows stage lease := by
  cases lease with
  | some l =>
    unfold Shows
    rw [hstage, hrun]
    exact h
  | none =>
    unfold Shows
    rw [hstage]
    exact h

/-- Another time at which the lease expires. -/
theorem Shows.expire (h : n.Shows stage lease) (expiry : ℕ)
    (hstage : n'.stage stage = { n.stage stage with leaseExpiresAt := some expiry })
    (hrun : n'.runId? stage = n.runId? stage) :
    n'.Shows stage (lease.map fun l => { l with expiry }) := by
  cases lease with
  | some l =>
    obtain ⟨hstatus, hholder, -⟩ := h
    unfold Shows
    rw [hstage, hrun]
    exact ⟨hstatus, hholder, rfl⟩
  | none =>
    unfold Shows
    rw [hstage]
    exact h

/-- Skipping the stages that nobody is working at leaves the leases. -/
theorem Shows.skipStages (h : n.Shows stage lease) (stages : List NodeProcessingStage)
    (reason : String) (now : ℕ) : (n.skipStages stages reason now).Shows stage lease := by
  have hstage := n.stage_skipStages stages reason now stage
  split at hstage
  · next hidle =>
    have hnone : lease = none := by
      refine Option.eq_none_iff_forall_not_mem.mpr fun l hl => ?_
      cases hl
      simp [h.1] at hidle
    subst hnone
    unfold Shows
    rw [hstage]
    nofun
  · exact h.congr hstage (n.runId?_skipStages stages reason now stage)

/-- A claim is for a stage whose lease has expired, or that has none. -/
theorem Shows.expiry_lt_of_claim {input : ClaimInput} (h : n.Shows input.stage lease)
    (hmatches : input.Matches now n) : ∀ l ∈ lease, l.expiry < now := by
  rintro l rfl
  obtain ⟨hstatus, -, hexpiry⟩ := h
  obtain hpending | hfailed | habandoned := hmatches.2.2
  · rw [hstatus] at hpending
    cases hpending
  · have hfailed := hfailed.1
    rw [hstatus] at hfailed
    cases hfailed
  · exact habandoned.2 l.expiry hexpiry

end ProcessedNode

/-- **A stage is fenced**: the row shows the lease that the history leads to, every
event of which was permitted, by runs that were drawn. -/
structure FencedStage (drawn : Finset String) (n : ProcessedNode) (stage : NodeProcessingStage)
    (history : List (LeaseEvent String)) : Prop where
  shows_replay : n.Shows stage (Lease.replay history)
  lawful : Lease.Lawful history
  drawn : ∀ run, Lease.Claimed run history → run ∈ drawn

namespace FencedStage

variable {drawn drawn' : Finset String} {n n' : ProcessedNode} {stage : NodeProcessingStage}
  {history : List (LeaseEvent String)} {now : ℕ}

/-- Nothing happens to the stage. -/
theorem congr (h : FencedStage drawn n stage history) (hdrawn : drawn ⊆ drawn')
    (hshows : n'.Shows stage (Lease.replay history)) : FencedStage drawn' n' stage history :=
  ⟨hshows, h.lawful, fun run hrun => hdrawn (h.drawn run hrun)⟩

/-- A permitted event happens to the lease, other than a claim. -/
theorem event (h : FencedStage drawn n stage history) {e : LeaseEvent String}
    (he : ¬ e.IsClaim)
    (hpermits : Lease.Permits (Lease.replay history) e)
    (hshows : n'.Shows stage (Lease.apply (Lease.replay history) e)) :
    FencedStage drawn n' stage (e :: history) := by
  have hne : ∀ run now expiry, e ≠ .claimed run now expiry :=
    fun run now expiry heq => he (heq ▸ trivial)
  refine ⟨hshows,
    ⟨hpermits, fun run now expiry heq => absurd heq (hne run now expiry), h.lawful⟩, ?_⟩
  rintro run ⟨now, expiry, hmem⟩
  obtain heq | hmem := List.mem_cons.mp hmem
  · exact absurd heq.symm (hne run now expiry)
  · exact h.drawn run ⟨now, expiry, hmem⟩

/-- A run claims the stage. -/
theorem claim {input : ClaimInput} {runId : String}
    (h : FencedStage drawn n input.stage history) (hmatches : input.Matches now n)
    (hfresh : runId ∉ drawn) :
    FencedStage (drawn ∪ {runId}) (n.claim input runId now) input.stage
      (.claimed runId now (now + input.leaseMs) :: history) := by
  refine ⟨?_, ⟨h.shows_replay.expiry_lt_of_claim hmatches, ?_, h.lawful⟩, ?_⟩
  · show _ ∧ _ ∧ _
    rw [ProcessedNode.stage_claim, ProcessedNode.runId?_claim, if_pos rfl, if_pos rfl]
    exact ⟨rfl, rfl, rfl⟩
  · rintro _ _ _ ⟨⟩ hclaimed
    exact hfresh (h.drawn runId hclaimed)
  · rintro run ⟨now, expiry, hmem⟩
    obtain heq | hmem := List.mem_cons.mp hmem
    · cases heq
      exact Finset.mem_union_right _ (Finset.mem_singleton_self _)
    · exact Finset.mem_union_left _ (h.drawn run ⟨now, expiry, hmem⟩)

end FencedStage

/-! ## Every operation keeps the stages fenced -/

/-- Every stage of a node is fenced. -/
def FencedNode (drawn : Finset String) (n : TrackedNode) : Prop :=
  ∀ stage, FencedStage drawn n.toProcessedNode stage (n.leaseHistory stage)

namespace FencedNode

variable {drawn : Finset String} {n : TrackedNode} {op : ProcessingOp} {now : ℕ}
  {stage : NodeProcessingStage}

/-- An operation adds its event to the history of a stage. -/
theorem leaseHistory_apply (op : ProcessingOp) (now : ℕ) (n : TrackedNode)
    (stage : NodeProcessingStage) :
    (op.apply now n).leaseHistory stage
      = (op.events now n.toProcessedNode).filterMap (ProcessingEvent.leaseEvent? stage)
        ++ n.leaseHistory stage :=
  List.filterMap_append

/-- The history of a lease that one event adds to, or leaves. -/
theorem filterMap_singleton {p : Prop} [Decidable p] {event : ProcessingEvent}
    {e : LeaseEvent String} (h : event.leaseEvent? stage = if p then some e else none) :
    [event].filterMap (ProcessingEvent.leaseEvent? stage) = if p then [e] else [] := by
  rw [List.filterMap_cons, h]
  split_ifs <;> rfl

/-- An operation that is an event of a stage, other than a claim, or leaves what the
row shows of it. -/
theorem event (h : FencedNode drawn n) {p : Prop} [Decidable p] {e : LeaseEvent String}
    (hevents : (op.events now n.toProcessedNode).filterMap (ProcessingEvent.leaseEvent? stage)
      = if p then [e] else [])
    (he : ¬ e.IsClaim)
    (hpermits : p → Lease.Permits (n.lease? stage) e)
    (hshows : p → (op.patch now n.toProcessedNode).Shows stage (Lease.apply (n.lease? stage) e))
    (hothers : ¬ p → (op.patch now n.toProcessedNode).Shows stage (n.lease? stage)) :
    FencedStage (drawn ∪ op.draws) (op.apply now n).toProcessedNode stage
      ((op.apply now n).leaseHistory stage) := by
  rw [leaseHistory_apply, hevents]
  have hdrawn : drawn ⊆ drawn ∪ op.draws := Finset.subset_union_left
  split_ifs with hp
  · have hold := (h stage).congr hdrawn (h stage).shows_replay
    exact hold.event he (hpermits hp) (hshows hp)
  · exact (h stage).congr hdrawn (hothers hp)

/-- A report that ends a stage, and leaves the leases of the others. -/
theorem finish (h : FencedNode drawn n) {first : NodeProcessingStage} {runId : String}
    (hguard : n.StageRunGuard first runId)
    (hevents : (op.events now n.toProcessedNode).filterMap (ProcessingEvent.leaseEvent? stage)
      = if first = stage then [.finished runId] else [])
    (hstatus : ((op.patch now n.toProcessedNode).stage first).status ≠ .processing)
    (hothers : first ≠ stage →
      (op.patch now n.toProcessedNode).Shows stage (n.lease? stage)) :
    FencedStage (drawn ∪ op.draws) (op.apply now n).toProcessedNode stage
      ((op.apply now n).leaseHistory stage) := by
  refine h.event hevents id ?_ ?_ hothers
  · rintro rfl
    exact (h first).shows_replay.holder_of_guard hguard
  · rintro rfl
    exact hstatus

/-- A claim is fenced by its new run id. -/
theorem claim (h : FencedNode drawn n) {input : ClaimInput} {runId : String}
    (hmatches : input.Matches now n.toProcessedNode) (hfresh : runId ∉ drawn)
    (stage : NodeProcessingStage) :
    FencedStage (drawn ∪ {runId}) ((ProcessingOp.claim input runId).apply now n).toProcessedNode
      stage (((ProcessingOp.claim input runId).apply now n).leaseHistory stage) := by
  have hevents := @filterMap_singleton stage _ _
    (.claimed input.stage runId now (now + input.leaseMs) (n.claim input runId now)) _ rfl
  rw [leaseHistory_apply]
  simp only [ProcessingOp.events]
  rw [hevents]
  split_ifs with hstage
  · subst hstage
    exact (h input.stage).claim hmatches hfresh
  · refine (h stage).congr Finset.subset_union_left ((h stage).shows_replay.congr ?_ ?_)
    · exact (n.stage_claim input runId now stage).trans (if_neg (Ne.symm hstage))
    · exact (n.runId?_claim input runId now stage).trans (if_neg (Ne.symm hstage))

/-- **Every operation keeps the stages of a node fenced.** -/
theorem rowInvariant : ProcessingDb.RowInvariant (fun _ => True) FencedNode where
  new drawn now data dataHex stage := ⟨nofun, trivial, by rintro run ⟨_, _, ⟨⟩⟩⟩
  mono drawn drawn' n hdrawn h stage := (h stage).congr hdrawn (h stage).shows_replay
  apply drawn now n op _ hguard hfresh h stage := by
    have hpatched : ∀ {first : NodeProcessingStage} (columns : StageColumns), first ≠ stage →
        (n.patchStage first now columns).Shows stage (n.lease? stage) := fun columns hstage =>
      (h stage).shows_replay.congr (by simp [Ne.symm hstage]) rfl
    cases op with
    | claim input runId =>
      exact h.claim hguard.2 (Finset.disjoint_singleton_right.mp hfresh) stage
    | renew first runId leaseMs =>
      refine h.event (filterMap_singleton rfl) id ?_ ?_ (hpatched _)
      · rintro rfl
        exact (h first).shows_replay.holder_of_guard hguard
      · rintro rfl
        exact (h first).shows_replay.expire _
          (by simp [ProcessingOp.patch, ProcessedNode.renew]) rfl
    | complete first runId data promotedFields =>
      refine h.finish hguard (filterMap_singleton rfl) ?_ (hpatched _)
      simp [ProcessingOp.patch, ProcessedNode.complete]
    | completeWithArtifacts runId artifactIds promotedFields =>
      refine h.finish hguard (filterMap_singleton rfl) ?_ (hpatched _)
      simp [ProcessingOp.patch, ProcessedNode.complete]
    | fail first runId error =>
      refine h.finish hguard (filterMap_singleton rfl) ?_ (hpatched _)
      simp [ProcessingOp.patch, ProcessedNode.fail, ProcessedNode.failOrSkip]
    | skip first runId reason =>
      refine h.finish hguard (filterMap_singleton rfl) ?_ (hpatched _)
      simp [ProcessingOp.patch, ProcessedNode.skip, ProcessedNode.failOrSkip]
    | skipWithDownstream first runId reason downstreamReason =>
      refine h.finish hguard (filterMap_singleton rfl) ?_ fun hstage =>
        (hpatched _ hstage).skipStages _ _ _
      have hskipped : (n.skip first reason now).Shows first none := by
        simp [ProcessedNode.Shows, ProcessedNode.skip, ProcessedNode.failOrSkip]
      exact hskipped.skipStages _ _ _
    | skipStages stages reason =>
      exact h.event (p := False) (e := .revoked) rfl id False.elim False.elim fun _ =>
        (h stage).shows_replay.skipStages stages reason now
    | requeue input began =>
      have hstage := n.stage_requeue input began stage
      refine h.event (filterMap_singleton rfl) id (fun _ => trivial) (fun hmem => ?_)
        fun hmem => ?_
      · show ((input.patch began n.toProcessedNode).stage stage).status ≠ .processing
        rw [hstage, if_pos hmem]
        rintro ⟨⟩
      · exact (h stage).shows_replay.congr (hstage.trans (if_neg hmem))
          (n.runId?_requeue input began stage)
    | reset input began =>
      have hstage := n.stage_reset input began stage
      refine h.event (filterMap_singleton rfl) id (fun _ => trivial) (fun heq => ?_)
        fun hne => ?_
      · show ((input.patch began n.toProcessedNode).stage stage).status ≠ .processing
        rw [hstage, if_pos heq.symm]
        rintro ⟨⟩
      · exact (h stage).shows_replay.congr (hstage.trans (if_neg (Ne.symm hne)))
          (n.runId?_reset input began stage)
    | reap input began =>
      refine h.event (filterMap_singleton rfl) id (fun _ => trivial) ?_ (hpatched _)
      rintro rfl
      show ((input.patch began n.toProcessedNode).stage input.stage).status ≠ .processing
      rw [ProcessedNode.stage_reap]
      rintro ⟨⟩
    | release first =>
      refine h.event (filterMap_singleton rfl) id (fun _ => trivial) ?_ (hpatched _)
      rintro rfl
      exact (h first).shows_replay.expire now
        (by simp [ProcessingOp.patch, ProcessedNode.release]) rfl

end FencedNode

/-! ## Runs that lost their claim -/

namespace ProcessingEvent

/-- An event takes a stage from a run. -/
def Supersedes (stage : NodeProcessingStage) (runId : String) : ProcessingEvent → Prop
  | .claimed stage' runId' _ _ _ => stage' = stage ∧ runId' ≠ runId
  | .requeued input => stage ∈ input.stagesToReset
  | .reset input => input.stage = stage
  | .reaped input => input.stage = stage
  | .renewed _ _ _ | .finished _ _ _ _ | .stored _ _ | .released _ _ => False

/-- An event is the claim of a run. -/
def IsClaimOf (stage : NodeProcessingStage) (runId : String) : ProcessingEvent → Prop
  | .claimed stage' runId' _ _ _ => stage' = stage ∧ runId' = runId
  | _ => False

instance (stage : NodeProcessingStage) (runId : String) (e : ProcessingEvent) :
    Decidable (e.Supersedes stage runId) := by
  cases e <;> (unfold Supersedes; infer_instance)

instance (stage : NodeProcessingStage) (runId : String) (e : ProcessingEvent) :
    Decidable (e.IsClaimOf stage runId) := by
  cases e <;> (unfold IsClaimOf; infer_instance)

variable {stage : NodeProcessingStage} {runId : String} {e : ProcessingEvent}

/-- To the lease, it is an event that ends the hold of the run. -/
theorem Supersedes.leaseEvent (h : e.Supersedes stage runId) :
    ∃ e', e.leaseEvent? stage = some e' ∧ e'.Ends runId := by
  cases e with
  | claimed stage' runId' now leaseExpiresAt row =>
    obtain ⟨rfl, hne⟩ := h
    exact ⟨_, if_pos rfl, hne⟩
  | requeued input | reset input | reaped input => exact ⟨_, if_pos h, trivial⟩
  | renewed | finished | stored | released => exact h.elim

theorem IsClaimOf.claimed {history : List ProcessingEvent} (h : e.IsClaimOf stage runId)
    (hmem : e ∈ history) : Lease.Claimed runId (history.filterMap (leaseEvent? stage)) := by
  cases e with
  | claimed stage' runId' now leaseExpiresAt row =>
    obtain ⟨rfl, rfl⟩ := h
    exact ⟨now, leaseExpiresAt, List.mem_filterMap.mpr ⟨_, hmem, if_pos rfl⟩⟩
  | renewed | finished | stored | requeued | reset | reaped | released => exact h.elim

end ProcessingEvent

/-- A run claimed a stage, and was superseded since: by a later claim, by a requeue, by
a reset or by the sweep. -/
def TrackedNode.Superseded (n : TrackedNode) (stage : NodeProcessingStage)
    (runId : String) : Prop :=
  ∃ newer e older, n.history = newer ++ e :: older ∧ e.Supersedes stage runId
    ∧ ∃ claim ∈ older, claim.IsClaimOf stage runId

/-- A report is guarded by the run it is for. -/
theorem ProcessingOp.guard_of_run? {op : ProcessingOp} {stage : NodeProcessingStage}
    {runId : String} {now : ℕ} {n : ProcessedNode} (hrun : op.run? = some (stage, runId))
    (hguard : op.Guard now n) : n.StageRunGuard stage runId := by
  cases op <;> cases hrun <;> exact hguard

namespace FencedNode

variable {drawn : Finset String} {n : TrackedNode} {stage : NodeProcessingStage} {runId : String}

/-- A run that was superseded does not hold the stage. -/
theorem not_guard_of_superseded (h : FencedNode drawn n) (hsuperseded : n.Superseded stage runId) :
    ¬ n.StageRunGuard stage runId := by
  intro hguard
  obtain ⟨newer, e, older, hhistory, hsupersedes, claim, hmem, hclaim⟩ := hsuperseded
  obtain ⟨e', he', hends⟩ := hsupersedes.leaseEvent
  have hlawful := (h stage).lawful
  have hholder := (h stage).shows_replay.holder_of_guard hguard
  have hsplit : n.leaseHistory stage
      = newer.filterMap (ProcessingEvent.leaseEvent? stage)
        ++ e' :: older.filterMap (ProcessingEvent.leaseEvent? stage) := by
    rw [TrackedNode.leaseHistory, hhistory, List.filterMap_append, List.filterMap_cons_some he']
  rw [hsplit] at hlawful hholder
  have hact : (LeaseEvent.finished runId).IsActOf runId := rfl
  exact hlawful.not_permits (hclaim.claimed hmem) hends hact hholder

/-- A run finishes at most once. -/
theorem finished_notMem (h : FencedNode drawn n) {newer older : List ProcessingEvent}
    {status : NodeProcessingStatus} {data : Option KgJson}
    (hhistory : n.history = newer ++ .finished stage runId status data :: older)
    (status' : NodeProcessingStatus) (data' : Option KgJson) :
    .finished stage runId status' data' ∉ newer := by
  intro hmem
  have hlawful := (h stage).lawful
  have hfinished : ∀ status data,
      (ProcessingEvent.finished stage runId status data).leaseEvent? stage
        = some (.finished runId) := fun status data => if_pos rfl
  rw [TrackedNode.leaseHistory, hhistory, List.filterMap_append,
    List.filterMap_cons_some (hfinished status data)] at hlawful
  exact hlawful.finished_notMem (List.mem_filterMap.mpr ⟨_, hmem, hfinished status' data'⟩)

/-- A stage is claimed only when nobody holds a lease of it that has not expired. -/
theorem expiry_lt_of_claim (h : FencedNode drawn n) {input : ClaimInput} {now : ℕ}
    (hmatches : input.Matches now n.toProcessedNode) :
    ∀ l ∈ n.lease? input.stage, l.expiry < now :=
  (h input.stage).shows_replay.expiry_lt_of_claim hmatches

end FencedNode

open ProcessingDb

/-- **Stages are fenced.** Whatever workers and operators do, in whatever order: a run
that claimed a stage and was superseded since can no longer renew its lease, complete,
fail or skip the stage, or store artifacts; a run finishes at most once; and a stage
is claimed only when no lease that a run holds of it is still to expire. -/
theorem stage_fencing {actions : List Action} {s : ProcessingDb}
    (h : Run.follow step {} actions = some s) {nodeId : String} {n : TrackedNode}
    (hn : s.nodes.lookup nodeId = some n) (stage : NodeProcessingStage) :
    (∀ runId, n.Superseded stage runId →
      ∀ op : ProcessingOp, op.run? = some (stage, runId) → s.step (.report nodeId op) = none)
    ∧ (∀ runId newer status data older,
      n.history = newer ++ .finished stage runId status data :: older →
        ∀ status' data', .finished stage runId status' data' ∉ newer)
    ∧ ∀ input runId s', input.nodeId = nodeId → input.stage = stage →
      s.step (.claim input runId) = some s' → ∀ l ∈ n.lease? stage, l.expiry < s.clock := by
  have hholds := FencedNode.rowInvariant.follow (fun a _ now op _ => trivial) holds_empty h
  have hfenced := hholds.rows nodeId n hn
  refine ⟨fun runId hsuperseded op hrun => ?_,
    fun runId newer status data older hhistory => hfenced.finished_notMem hhistory, ?_⟩
  · refine Option.eq_none_iff_forall_not_mem.mpr fun s' hs' => ?_
    obtain ⟨-, hs'⟩ := Option.ite_none_right_eq_some.mp hs'
    obtain ⟨n', hn', hguard, -⟩ := applyTo_eq_some hs'
    obtain rfl := Option.some.inj (hn.symm.trans hn')
    exact hfenced.not_guard_of_superseded hsuperseded (op.guard_of_run? hrun hguard)
  · rintro input runId s' rfl rfl hs'
    obtain ⟨-, hs'⟩ := Option.ite_none_left_eq_some.mp hs'
    obtain ⟨n', hn', hguard, -⟩ := applyTo_eq_some hs'
    obtain rfl := Option.some.inj (hn.symm.trans hn')
    exact hfenced.expiry_lt_of_claim hguard.2

/-- A worker is slow, and another one takes its stage. -/
def slowWorker : List Action :=
  [.ensureNode "0x01" (some "hello") none,
    .claim { stage := .parse, nodeId := "0x01", workerId := "worker-1", leaseMs := 60_000 } "run-1",
    .wait 60_001,
    .claim { stage := .parse, nodeId := "0x01", workerId := "worker-2", leaseMs := 60_000 } "run-2"]

/-- The slow worker cannot complete the stage any more. -/
theorem stage_fencing_slowWorker : ∃ s n, Run.follow step {} slowWorker = some s
    ∧ s.nodes.lookup "0x01" = some n ∧ n.Superseded .parse "run-1"
    ∧ s.step (.report "0x01" (.complete .parse "run-1" none {})) = none := by
  have htags : ((Run.follow step {} slowWorker).bind fun s => s.nodes.lookup "0x01").map
      (fun n => n.history.map fun e =>
        (decide (e.Supersedes .parse "run-1"), decide (e.IsClaimOf .parse "run-1")))
        = some [(true, false), (false, true)] := by
    decide +kernel
  obtain ⟨n, hn, htags⟩ := Option.map_eq_some_iff.mp htags
  obtain ⟨s, hs, hlookup⟩ := Option.bind_eq_some_iff.mp hn
  obtain ⟨e, older, hhistory, he, htags⟩ := List.map_eq_cons_iff.mp htags
  obtain ⟨claim, _, rfl, hclaim, -⟩ := List.map_eq_cons_iff.mp htags
  have hsuperseded : n.Superseded .parse "run-1" :=
    ⟨[], e, _, hhistory, of_decide_eq_true (Prod.mk.inj he).1, claim, List.mem_cons_self,
      of_decide_eq_true (Prod.mk.inj hclaim).2⟩
  exact ⟨s, n, hs, hlookup, hsuperseded,
    (stage_fencing hs hlookup .parse).1 "run-1" hsuperseded _ rfl⟩
