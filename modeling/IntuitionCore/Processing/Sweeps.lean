import IntuitionCore.Library.CheckThenAct
import IntuitionCore.Processing.Statements

/-!
# What sweeps may touch

A reset, the sweep for dead workers and a requeue are meant for stages that nobody is
working at. Each says so in the condition of a query. Without a limit, a reset and the
sweep are single statements, and the condition is that of the update. With one, and
in a requeue always, the condition is that of a `SELECT`, and the update that follows
touches the rows that were selected, whatever has become of them.

So a stage that was completed, or claimed anew, between the two statements is reset or
ended all the same. No sweep does that if no statement in between takes a row out of
what was selected.
-/

/-- **What a sweep may touch**: a reset takes statuses it was told to, and never a
stage that is being processed; the sweep for dead workers takes stages whose attempts
are used up and whose lease has expired; a requeue that is not forced takes no stage
that is being processed under a lease. -/
def ProcessingEvent.SparesWork (now : ℕ) (n : ProcessedNode) : ProcessingEvent → Prop
  | .requeued input =>
    input.force = false → ∀ stage ∈ input.stagesToReset, ¬ n.HasActiveLease stage now
  | .reset input =>
    (n.stage input.stage).status ∈ input.eligibleStatuses
      ∧ (n.stage input.stage).status ≠ .processing
  | .reaped input => input.Matches now n
  | _ => True

namespace ProcessingDb

/-- A step spares the work of others: whatever it does to a row, it may do to it. -/
def SparesWork (s : ProcessingDb) (a : Action) : Prop :=
  ∀ s', s.step a = some s' → ∀ id n n' e, s.nodes.lookup id = some n →
    s'.nodes.lookup id = some n' → n'.history = e :: n.history →
    e.SparesWork s.clock n.toProcessedNode

/-- The rows that were selected, and by which transaction. -/
def selected (s : ProcessingDb) : Set (ProcessingSweep × String) :=
  { k | k.1 ∈ s.sweeps ∧ k.2 ∈ k.1.ids }

/-- A row is what it was selected for. -/
def IsStill (k : ProcessingSweep × String) (s : ProcessingDb) : Prop :=
  ∃ n, s.nodes.lookup k.2 = some n
    ∧ ∀ e ∈ k.1.op.events s.clock n.toProcessedNode, e.SparesWork s.clock n.toProcessedNode

variable {s s' : ProcessingDb} {a : Action} {id : String} {n n' : TrackedNode}
  {op : ProcessingOp} {e : ProcessingEvent}

/-- What a step does to a row is an event of the operation that it applies to it. -/
theorem event_of_step (h : s.step a = some s') (hn : s.nodes.lookup id = some n)
    (hn' : s'.nodes.lookup id = some n') (hhistory : n'.history = e :: n.history) :
    ∃ op ∈ a.operationOn s id n.toProcessedNode, e ∈ op.events s.clock n.toProcessedNode := by
  obtain rfl := Option.some.inj (hn'.symm.trans (lookup_of_step h hn).1)
  cases hop : a.operationOn s id n.toProcessedNode with
  | none =>
    rw [hop] at hhistory
    exact absurd hhistory.symm (List.cons_ne_self e n.history)
  | some op =>
    rw [hop] at hhistory
    refine ⟨op, rfl, ?_⟩
    have hsingleton : op.events s.clock n.toProcessedNode ++ n.history = [e] ++ n.history :=
      hhistory
    rw [List.append_cancel_right hsingleton]
    exact List.mem_singleton_self e

/-- Operations of runs are not sweeps. -/
theorem sparesWork_of_run? (hrun : op.run?.isSome = true) {now : ℕ} {n : ProcessedNode}
    (he : e ∈ op.events now n) : e.SparesWork now n := by
  cases op with
  | claim | skipStages | requeue | reset | reap | release => cases hrun
  | renew | complete | fail | skip | skipWithDownstream =>
    obtain rfl := List.mem_singleton.mp he
    trivial
  | completeWithArtifacts =>
    obtain rfl | he := List.mem_cons.mp he
    · trivial
    · obtain rfl := List.mem_singleton.mp he
      trivial

/-- **While every selected row is what it was selected for, a step spares work.** -/
theorem sparesWork_of_isStill (h : ∀ k ∈ s.selected, IsStill k s) (a : Action) :
    s.SparesWork a := by
  intro s' hs' id n n' e hn hn' hhistory
  obtain ⟨op, hop, he⟩ := event_of_step hs' hn hn' hhistory
  cases a with
  | ensureNode | wait | requeue => cases hop
  | report nodeId op' =>
    obtain ⟨hrun, -⟩ := Option.ite_none_right_eq_some.mp hs'
    obtain ⟨-, ⟨⟩⟩ := Option.ite_none_right_eq_some.mp hop
    exact sparesWork_of_run? hrun he
  | claim | release =>
    obtain ⟨-, ⟨⟩⟩ := Option.ite_none_right_eq_some.mp hop
    obtain rfl := List.mem_singleton.mp he
    trivial
  | skipStages nodeId stages reason =>
    obtain ⟨-, ⟨⟩⟩ := Option.ite_none_right_eq_some.mp hop
    cases he
  | reset input page =>
    obtain ⟨hvalid, -⟩ := Option.ite_none_right_eq_some.mp hs'
    obtain ⟨⟨-, hmatches⟩, ⟨⟩⟩ := Option.ite_none_right_eq_some.mp hop
    obtain rfl := List.mem_singleton.mp he
    exact ⟨hmatches.1, fun hprocessing => hvalid.2.1 (hprocessing ▸ hmatches.1)⟩
  | reap input page =>
    obtain ⟨⟨-, hmatches⟩, ⟨⟩⟩ := Option.ite_none_right_eq_some.mp hop
    obtain rfl := List.mem_singleton.mp he
    exact hmatches
  | update i =>
    obtain ⟨sweep, hsweep, hop⟩ := Option.bind_eq_some_iff.mp hop
    obtain ⟨hid, ⟨⟩⟩ := Option.ite_none_right_eq_some.mp hop
    obtain ⟨m, hm, hstill⟩ := h (sweep, id) ⟨List.mem_of_getElem? hsweep, hid⟩
    obtain rfl := Option.some.inj (hn.symm.trans hm)
    exact hstill e he

/-- What a transaction selects is what it selects for. -/
theorem isStill_of_begin (h : s.step a = some s') {k : ProcessingSweep × String}
    (hk : k ∈ s'.selected) : k ∈ s.selected ∨ IsStill k s' := by
  have hbegin : ∀ sweep : ProcessingSweep, s' = { s with sweeps := sweep :: s.sweeps } →
      (∀ id ∈ sweep.ids, IsStill (sweep, id) s) → k ∈ s.selected ∨ IsStill k s' := by
    rintro sweep rfl hstill
    obtain ⟨hsweep, hid⟩ := hk
    obtain heq | hold := List.mem_cons.mp hsweep
    · exact .inr (heq ▸ hstill k.2 (heq ▸ hid))
    · exact .inl ⟨hold, hid⟩
  have hkept : s'.sweeps ⊆ s.sweeps → k ∈ s.selected ∨ IsStill k s' :=
    fun hsub => .inl ⟨hsub hk.1, hk.2⟩
  cases a with
  | requeue input =>
    obtain ⟨n, hn, h⟩ := Option.bind_eq_some_iff.mp h
    obtain ⟨haccepts, h⟩ := Option.ite_none_left_eq_some.mp h
    refine hbegin _ (Option.some.inj h).symm fun id hid => ?_
    obtain rfl := Finset.mem_singleton.mp hid
    refine ⟨n, hn, fun e he => ?_⟩
    obtain rfl := List.mem_singleton.mp he
    intro hforce stage hstage hactive
    exact haccepts ⟨hforce, stage, hstage, hactive⟩
  | reset input page =>
    obtain ⟨hvalid, h⟩ := Option.ite_none_right_eq_some.mp h
    split at h
    · cases h
      exact hkept (List.Subset.refl _)
    · obtain ⟨hpage, h⟩ := Option.ite_none_right_eq_some.mp h
      refine hbegin _ (Option.some.inj h).symm fun id hid => ?_
      obtain ⟨n, hn, hmatches⟩ := Table.mem_keysWhere.mp (hpage.1 hid)
      refine ⟨n, hn, fun e he => ?_⟩
      obtain rfl := List.mem_singleton.mp he
      exact ⟨hmatches.1, fun hprocessing => hvalid.2.1 (hprocessing ▸ hmatches.1)⟩
  | reap input page =>
    obtain ⟨-, h⟩ := Option.ite_none_right_eq_some.mp h
    split at h
    · cases h
      exact hkept (List.Subset.refl _)
    · obtain ⟨hpage, h⟩ := Option.ite_none_right_eq_some.mp h
      refine hbegin _ (Option.some.inj h).symm fun id hid => ?_
      obtain ⟨n, hn, hmatches⟩ := Table.mem_keysWhere.mp (hpage.1 hid)
      refine ⟨n, hn, fun e he => ?_⟩
      obtain rfl := List.mem_singleton.mp he
      exact hmatches
  | update i =>
    obtain ⟨sweep, -, ⟨⟩⟩ := Option.bind_eq_some_iff.mp h
    exact hkept fun _ => List.mem_of_mem_eraseIdx
  | ensureNode | wait | release =>
    cases h
    exact hkept (List.Subset.refl _)
  | claim input runId =>
    obtain ⟨-, h⟩ := Option.ite_none_left_eq_some.mp h
    obtain ⟨_, -, -, rfl⟩ := applyTo_eq_some h
    exact hkept (List.Subset.refl _)
  | report nodeId op =>
    obtain ⟨-, h⟩ := Option.ite_none_right_eq_some.mp h
    obtain ⟨_, -, -, rfl⟩ := applyTo_eq_some h
    exact hkept (List.Subset.refl _)
  | skipStages nodeId stages reason =>
    obtain ⟨_, -, -, rfl⟩ := applyTo_eq_some h
    exact hkept (List.Subset.refl _)

/-- No statement takes a row out of what a transaction under way has selected. -/
abbrev Undisturbed : ProcessingDb → Action → Prop :=
  CheckThenAct.Undisturbed step selected IsStill

end ProcessingDb

open ProcessingDb

/-- **Sweeps spare the work of others** where nobody works between their statements:
in a run in which no statement takes a row out of what a transaction under way has
selected, a reset takes only the statuses it was told to, the sweep for dead workers
only stages whose attempts are used up and whose lease has expired, and a requeue that
is not forced no stage that is being processed under a lease. -/
theorem sweeps_spare_work {actions : List Action}
    (h : Run.EachStep step Undisturbed {} actions) : Run.EachStep step SparesWork {} actions := by
  refine CheckThenAct.eachStep_of_undisturbed (I := fun _ => True) ?_ ?_ ?_ trivial ?_ h
  · exact fun _ _ _ _ _ => trivial
  · exact fun _ _ _ _ hs' _ k hk => isStill_of_begin hs' hk
  · exact fun _ a _ _ _ hstill => sparesWork_of_isStill hstill a
  · exact fun k hk => absurd hk.1 List.not_mem_nil

/-- A worker dies, and its stage is swept; the sweep is limited. -/
def sweptStage : List Action :=
  [.ensureNode "0x01" (some "hello") none,
    .claim { stage := .parse, nodeId := "0x01", workerId := "worker-1", leaseMs := 60_000 } "run-1",
    .wait 60_001, .reap { stage := .parse, maxAttempts := 1, limit := some 16 } {"0x01"}, .update 0]

/-- Nobody works at the stage between the two statements. -/
theorem sweeps_spare_work_sweptStage : Run.EachStep step Undisturbed {} sweptStage
    ∧ Run.EachStep step SparesWork {} sweptStage := by
  have halone : Run.EachStep step
      (fun s a => s.sweeps = [] ∨ ∀ s' ∈ s.step a, s'.sweeps = []) {} sweptStage := by
    decide +kernel
  have hundisturbed : Run.EachStep step Undisturbed {} sweptStage := by
    refine halone.imp fun s a s' hs' hnone s'' hs'' k hk hk' _ => ?_
    obtain hnone | hnone := hnone
    · exact absurd (hnone ▸ hk.1) List.not_mem_nil
    · exact absurd (hnone s'' hs'' ▸ hk'.1) List.not_mem_nil
  exact ⟨hundisturbed, sweeps_spare_work hundisturbed⟩

namespace ProcessingDb

variable {s : ProcessingDb} {id : String} {n : TrackedNode} {e : ProcessingEvent} {i : ℕ}
  {sweep : ProcessingSweep}

/-- The update of a transaction touches every row that it selected. -/
theorem sparesWork_of_update (h : s.SparesWork (.update i)) (hsweep : s.sweeps[i]? = some sweep)
    (hid : id ∈ sweep.ids) (hn : s.nodes.lookup id = some n)
    (he : sweep.op.events s.clock n.toProcessedNode = [e]) :
    e.SparesWork s.clock n.toProcessedNode := by
  have hlookup : (s.applyWhere (fun k _ => k ∈ sweep.ids) sweep.op).nodes.lookup id
      = some (sweep.op.apply s.clock n) := by
    rw [lookup_applyWhere, hn, Option.map_some, if_pos hid]
  refine h _ (Option.bind_eq_some_iff.mpr ⟨sweep, hsweep, rfl⟩) id n _ e hn hlookup ?_
  show sweep.op.events s.clock n.toProcessedNode ++ n.history = e :: n.history
  rw [he]
  rfl

end ProcessingDb

/-- A worker that was thought dead completes its stage after it was selected. -/
def completedAfterSelect : List Action :=
  [.ensureNode "0x01" (some "hello") none,
    .claim { stage := .parse, nodeId := "0x01", workerId := "worker-1", leaseMs := 60_000 } "run-1",
    .wait 60_001, .reap { stage := .parse, maxAttempts := 1, limit := some 16 } {"0x01"},
    .report "0x01" (.complete .parse "run-1" (some (.object [("kind", .string "text")])) {})]

/-- **A sweep does not always spare work**: it ends a stage that was completed. -/
theorem completedAfterSelect_not_spared :
    ¬ ∀ actions : List Action, Run.EachStep step SparesWork {} actions := by
  intro h
  have hrun : (Run.follow step {} completedAfterSelect).map (fun s =>
      (s.sweeps, (s.nodes.lookup "0x01").map fun n => (n.stage .parse).status))
        = some ([.reap { stage := .parse, maxAttempts := 1, limit := some 16 } 60_001 {"0x01"}],
          some .completed) := by
    decide +kernel
  obtain ⟨s, hs, heq⟩ := Option.map_eq_some_iff.mp hrun
  obtain ⟨hsweeps, hstatus⟩ := Prod.mk.inj heq
  obtain ⟨n, hn, hcompleted⟩ := Option.map_eq_some_iff.mp hstatus
  have hsweep : s.sweeps[0]? = some (.reap { stage := .parse, maxAttempts := 1, limit := some 16 }
      60_001 {"0x01"}) := by
    rw [hsweeps]
    rfl
  have hstep : s.step (.update 0) ≠ none := by
    simp [step, hsweep]
  obtain ⟨s', hs'⟩ := Option.ne_none_iff_exists'.mp hstep
  have hspares : s.SparesWork (.update 0) :=
    (h (completedAfterSelect ++ [.update 0])).safe_of_follow hs hs'
  have hmatches := sparesWork_of_update hspares hsweep (Finset.mem_singleton_self _) hn rfl
  have hprocessing : (n.stage .parse).status = .processing := hmatches.1
  rw [hcompleted] at hprocessing
  cases hprocessing
