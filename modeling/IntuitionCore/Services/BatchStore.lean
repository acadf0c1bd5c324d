import IntuitionCore.Library.Run
import IntuitionCore.Library.Table
import Mathlib.Data.List.Range

/-!
# The store of batches

A batch of jobs is accepted at once and worked off in the background, one job after the
other; a client polls for what has come of it. Between two jobs of a batch anything may
happen: jobs of other batches settle, batches are submitted, and with each submission the
batches are forgotten that finished long enough ago.

The loop of a batch keeps hold of its record and not of the id. So what a record says depends
on the outcomes of its own jobs only, and an id finds the last batch that was submitted under
it. What happens between two points at which a loop waits happens at once; therefore no client
sees a batch that is queued, or one that has all its results and is still running.
-/

inductive BatchItemStatus where
  | success
  | partly
  | failed
  deriving DecidableEq, Repr

inductive BatchStatus where
  | queued
  | running
  | complete
  | partly
  | failed
  deriving DecidableEq, Repr

structure BatchItemError where
  code : String
  message : String
  deriving DecidableEq, Repr

structure ProcessBatchItemResult (ρ : Type) where
  index : ℕ
  status : BatchItemStatus
  response : Option ρ
  error : Option BatchItemError := none
  deriving DecidableEq, Repr

/-- What a client is told of a batch. -/
structure BatchJobRecord (ρ : Type) where
  jobId : String
  status : BatchStatus
  submittedAt : ℤ
  startedAt : Option ℤ := none
  finishedAt : Option ℤ := none
  total : ℕ
  completed : ℕ
  results : List (ProcessBatchItemResult ρ)
  deriving DecidableEq, Repr

/-- How a job of a batch settles: with a response and its status, or with an error, whose
message is redacted. -/
inductive JobOutcome (ρ : Type) where
  | response (status : BatchItemStatus) (response : ρ)
  | error (redactedMessage : String)

/-- A record, and the loop that works it off: it waits for the job at `index`, if there is
one. -/
structure BatchExecution (ι ρ : Type) where
  record : BatchJobRecord ρ
  jobs : List ι
  index : ℕ := 0
  results : List (ProcessBatchItemResult ρ) := []

/-- The records there have been, in the order of submission, and the map that finds them by
their ids. -/
structure InMemoryProcessBatchStore (ι ρ : Type) where
  executions : List (BatchExecution ι ρ) := []
  jobs : Table String ℕ := ∅
  retainCompletedMs : ℤ

namespace InMemoryProcessBatchStore

variable {ι ρ : Type}

/-- A store, as it is constructed. A minute is the least that is retained. -/
def new (retainCompletedMs : Option ℤ) : InMemoryProcessBatchStore ι ρ where
  retainCompletedMs := max 60000 (retainCompletedMs.getD 3600000)

def resolveBatchStatus (results : List (ProcessBatchItemResult ρ)) (total : ℕ) : BatchStatus :=
  let failedCount := (results.filter fun result => result.status = .failed).length
  let partialCount := (results.filter fun result => result.status = .partly).length
  if failedCount ≥ total then .failed
  else if failedCount > 0 ∨ partialCount > 0 then .partly
  else .complete

/-- The result of a job. -/
def itemResult (index : ℕ) : JobOutcome ρ → ProcessBatchItemResult ρ
  | .response status response => { index, status, response := some response }
  | .error redactedMessage =>
    { index, status := .failed, response := none
      error := some ⟨"BATCH_ITEM_FAILED", redactedMessage⟩ }

/-- The loop goes on: it waits for the next job, or is through. -/
def proceed (now : ℤ) (e : BatchExecution ι ρ) : BatchExecution ι ρ :=
  if e.index < e.jobs.length then e
  else
    { e with
      record := { e.record with
        finishedAt := some now
        status := resolveBatchStatus e.results e.record.total
        results := e.results } }

/-- The loop begins. The clock is read once when it begins, and once when it is through. -/
def executeJob (startedAt now : ℤ) (record : BatchJobRecord ρ) (jobs : List ι) :
    BatchExecution ι ρ :=
  proceed now
    { record := { record with status := .running, startedAt := some startedAt }, jobs }

/-- The job that the loop waits for settles. -/
def settleJob (now : ℤ) (outcome : JobOutcome ρ) (e : BatchExecution ι ρ) :
    BatchExecution ι ρ :=
  let results := e.results ++ [itemResult e.index outcome]
  proceed now
    { e with
      index := e.index + 1
      results
      record := { e.record with completed := results.length, results } }

/-- When the record of an id was finished. -/
def finishedAt (s : InMemoryProcessBatchStore ι ρ) (i : ℕ) : Option ℤ :=
  s.executions[i]?.bind fun e => e.record.finishedAt

/-- Forget the batches that finished too long ago. -/
def cleanupExpiredCompletedJobs (s : InMemoryProcessBatchStore ι ρ) (nowMs : ℤ) :
    InMemoryProcessBatchStore ι ρ :=
  { s with
    jobs := s.jobs.deleteRows fun _ i =>
      (s.finishedAt i).any fun finishedAt => s.retainCompletedMs < nowMs - finishedAt }

/-- Submit a batch under an id. The clock is read one time after the other. -/
def submit (s : InMemoryProcessBatchStore ι ρ) (input : List ι) (jobId : String)
    (now : ℕ → ℤ) : InMemoryProcessBatchStore ι ρ :=
  let s := s.cleanupExpiredCompletedJobs (now 0)
  let record : BatchJobRecord ρ :=
    { jobId, status := .queued, submittedAt := now 1, total := input.length, completed := 0
      results := [] }
  { s with
    executions := s.executions ++ [executeJob (now 2) (now 3) record input]
    jobs := s.jobs.upsert jobId fun _ => s.executions.length }

def get (s : InMemoryProcessBatchStore ι ρ) (jobId : String) : Option (BatchJobRecord ρ) :=
  (s.jobs.lookup jobId).bind fun i => s.executions[i]?.map BatchExecution.record

/-- What happens to a store. -/
inductive Action (ι ρ : Type) where
  /-- A batch is submitted. -/
  | submit (input : List ι) (jobId : String) (now : ℕ → ℤ)
  /-- The job that a loop waits for settles. -/
  | settle (i : ℕ) (outcome : JobOutcome ρ) (now : ℤ)

def step (s : InMemoryProcessBatchStore ι ρ) :
    Action ι ρ → Option (InMemoryProcessBatchStore ι ρ)
  | .submit input jobId now => some (s.submit input jobId now)
  | .settle i outcome now =>
    match s.executions[i]? with
    | some e =>
      if e.index < e.jobs.length then
        some { s with executions := s.executions.set i (settleJob now outcome e) }
      else none
    | none => none

/-! ## What a record says -/

/-- **A record is in order**: its results are those of its first jobs, one for each; it is
running as long as there are jobs left, and then it is finished, with the status of its
results. -/
structure InOrder (e : BatchExecution ι ρ) : Prop where
  results_eq : e.record.results = e.results
  completed_eq : e.record.completed = e.results.length
  index_eq : e.index = e.results.length
  total_eq : e.record.total = e.jobs.length
  index_le : e.index ≤ e.jobs.length
  started : e.record.startedAt ≠ none
  indices : e.results.map ProcessBatchItemResult.index = List.range e.index
  waiting : e.index < e.jobs.length → e.record.status = .running ∧ e.record.finishedAt = none
  finished : e.index = e.jobs.length →
    e.record.status = resolveBatchStatus e.results e.record.total ∧ e.record.finishedAt ≠ none

/-- **Going on** keeps everything but the end of a record. -/
theorem InOrder.of_proceed {now : ℤ} {e : BatchExecution ι ρ}
    (hresults : e.record.results = e.results) (hcompleted : e.record.completed = e.results.length)
    (hindex : e.index = e.results.length) (htotal : e.record.total = e.jobs.length)
    (hle : e.index ≤ e.jobs.length) (hstarted : e.record.startedAt ≠ none)
    (hindices : e.results.map ProcessBatchItemResult.index = List.range e.index)
    (hrunning : e.record.status = .running ∧ e.record.finishedAt = none) :
    InOrder (proceed now e) := by
  unfold proceed
  by_cases h : e.index < e.jobs.length
  · rw [if_pos h]
    exact ⟨hresults, hcompleted, hindex, htotal, hle, hstarted, hindices, fun _ => hrunning,
      fun heq => absurd h (by rw [heq]; exact lt_irrefl _)⟩
  · rw [if_neg h]
    exact ⟨rfl, hcompleted, hindex, htotal, hle, hstarted, hindices, fun hlt => absurd hlt h,
      fun _ => ⟨rfl, Option.some_ne_none now⟩⟩

theorem InOrder.executeJob {startedAt now submittedAt : ℤ} {jobId : String} (input : List ι) :
    InOrder (executeJob (ρ := ρ) startedAt now
      { jobId, status := .queued, submittedAt, total := input.length, completed := 0
        results := [] } input) :=
  .of_proceed rfl rfl rfl rfl (Nat.zero_le _) (Option.some_ne_none _) rfl ⟨rfl, rfl⟩

theorem InOrder.settleJob {e : BatchExecution ι ρ} (h : InOrder e)
    (hwaiting : e.index < e.jobs.length) (now : ℤ) (outcome : JobOutcome ρ) :
    InOrder (settleJob now outcome e) := by
  have hlength : (e.results ++ [itemResult e.index outcome]).length = e.index + 1 := by
    rw [List.length_append, ← h.index_eq]
    rfl
  have hitem : (itemResult e.index outcome).index = e.index := by
    cases outcome <;> rfl
  refine .of_proceed rfl rfl hlength.symm h.total_eq hwaiting h.started ?_ (h.waiting hwaiting)
  show (e.results ++ [itemResult e.index outcome]).map ProcessBatchItemResult.index = _
  rw [List.map_append, h.indices, List.range_succ, List.map_singleton, hitem]

/-! ## Steps -/

variable {s s' : InMemoryProcessBatchStore ι ρ} {a : Action ι ρ} {as : List (Action ι ρ)}
  {i : ℕ} {e : BatchExecution ι ρ}

/-- The job at an index settles. -/
theorem step_settle {outcome : JobOutcome ρ} {now : ℤ}
    (h : s.step (.settle i outcome now) = some s') :
    ∃ e, s.executions[i]? = some e ∧ e.index < e.jobs.length
      ∧ s' = { s with executions := s.executions.set i (settleJob now outcome e) } := by
  cases he : s.executions[i]? with
  | none => simp [step, he] at h
  | some e =>
    by_cases hlt : e.index < e.jobs.length
    · refine ⟨e, rfl, hlt, ?_⟩
      simpa [step, he, hlt] using h.symm
    · simp [step, he, hlt] at h

/-- The outcomes of the jobs of a batch, as they come. -/
def outcomeOf (i : ℕ) : Action ι ρ → Option (JobOutcome ρ)
  | .submit _ _ _ => none
  | .settle j outcome _ => if j = i then some outcome else none

/-- **What a step does to a batch that is there**: its own job settles, or nothing. -/
theorem executions_step (h : s.step a = some s') (he : s.executions[i]? = some e) :
    ∃ e', s'.executions[i]? = some e'
      ∧ (outcomeOf i a).elim (e' = e) fun outcome =>
        e.index < e.jobs.length ∧ ∃ now, e' = settleJob now outcome e := by
  cases a with
  | submit input jobId now =>
    obtain rfl := Option.some.inj h
    refine ⟨e, ?_, rfl⟩
    show (s.executions ++ _)[i]? = some e
    rw [List.getElem?_append_left (List.getElem?_eq_some_iff.mp he).1]
    exact he
  | settle j outcome now =>
    obtain ⟨e₁, he₁, hlt, rfl⟩ := step_settle h
    by_cases hj : j = i
    · subst hj
      obtain rfl := Option.some.inj (he.symm.trans he₁)
      refine ⟨settleJob now outcome e, ?_, ?_⟩
      · show (s.executions.set j _)[j]? = _
        rw [List.getElem?_set_self (List.getElem?_eq_some_iff.mp he).1]
      · rw [outcomeOf, if_pos rfl]
        exact ⟨hlt, now, rfl⟩
    · refine ⟨e, ?_, ?_⟩
      · show (s.executions.set j _)[i]? = _
        rw [List.getElem?_set_ne hj]
        exact he
      · rw [outcomeOf, if_neg hj]
        rfl

/-- **Every record is in order, at every moment.** -/
def AllInOrder (s : InMemoryProcessBatchStore ι ρ) : Prop :=
  ∀ (i : ℕ) (e : BatchExecution ι ρ), s.executions[i]? = some e → InOrder e

theorem allInOrder_step (hs : s.AllInOrder) (h : s.step a = some s') : s'.AllInOrder := by
  intro i e he
  cases a with
  | submit input jobId now =>
    obtain rfl := Option.some.inj h
    replace he : (s.executions ++ [executeJob (now 2) (now 3) _ input])[i]? = some e := he
    by_cases hi : i < s.executions.length
    · rw [List.getElem?_append_left hi] at he
      exact hs i e he
    · rw [List.getElem?_append_right (Nat.not_lt.mp hi)] at he
      obtain rfl := List.mem_singleton.mp (List.mem_of_getElem? he)
      exact .executeJob input
  | settle j outcome now =>
    obtain ⟨e₁, he₁, hlt, rfl⟩ := step_settle h
    replace he : (s.executions.set j (settleJob now outcome e₁))[i]? = some e := he
    by_cases hj : j = i
    · subst hj
      rw [List.getElem?_set_self (List.getElem?_eq_some_iff.mp he₁).1] at he
      obtain rfl := Option.some.inj he
      exact (hs j e₁ he₁).settleJob hlt now outcome
    · rw [List.getElem?_set_ne hj] at he
      exact hs i e he

/-! ## What comes of a batch -/

/-- The results of outcomes, in the order in which they came. -/
def resultsOf (outcomes : List (JobOutcome ρ)) : List (ProcessBatchItemResult ρ) :=
  outcomes.mapIdx itemResult

theorem resultsOf_concat (outcomes : List (JobOutcome ρ)) (outcome : JobOutcome ρ) :
    resultsOf (outcomes ++ [outcome])
      = resultsOf outcomes ++ [itemResult outcomes.length outcome] := by
  simp [resultsOf, List.mapIdx_append]

/-- **The results of a batch after a schedule**: those it had, and those of the outcomes of
its own jobs, whatever happened in between. -/
theorem results_follow {outcomes : List (JobOutcome ρ)} (hs : s.AllInOrder)
    (h : Run.follow step s as = some s') (he : s.executions[i]? = some e)
    (hresults : e.results = resultsOf outcomes) :
    ∃ e', s'.executions[i]? = some e' ∧ e'.jobs = e.jobs
      ∧ e'.results = resultsOf (outcomes ++ as.filterMap (outcomeOf i)) := by
  induction as generalizing s e outcomes with
  | nil =>
    cases h
    exact ⟨e, he, rfl, by simpa using hresults⟩
  | cons a as ih =>
    obtain ⟨s₁, hs₁, hfollow⟩ := Option.bind_eq_some_iff.mp h
    obtain ⟨e₁, he₁, hstep⟩ := executions_step hs₁ he
    cases ha : outcomeOf i a with
    | none =>
      rw [ha] at hstep
      obtain rfl : e₁ = e := hstep
      rw [List.filterMap_cons_none ha]
      exact ih (allInOrder_step hs hs₁) hfollow he₁ hresults
    | some outcome =>
      rw [ha] at hstep
      obtain ⟨-, now, rfl⟩ := hstep
      have hproceed : ∀ (e : BatchExecution ι ρ) (now : ℤ),
          (proceed now e).jobs = e.jobs ∧ (proceed now e).results = e.results := fun e now => by
        unfold proceed
        split <;> exact ⟨rfl, rfl⟩
      obtain ⟨hjobs, hres⟩ := hproceed _ now
      have hlength : e.index = outcomes.length := by
        rw [(hs i e he).index_eq, hresults, resultsOf, List.length_mapIdx]
      have hres₁ : (settleJob now outcome e).results
          = resultsOf (outcomes ++ [outcome]) := by
        rw [settleJob, hres, resultsOf_concat, hresults, hlength]
      obtain ⟨e', he', hjobs', hres'⟩ := ih (allInOrder_step hs hs₁) hfollow he₁ hres₁
      refine ⟨e', he', hjobs'.trans hjobs, ?_⟩
      rw [hres', List.filterMap_cons_some ha, List.append_assoc]
      rfl

/-- A store that has just been constructed. -/
theorem allInOrder_new (retainCompletedMs : Option ℤ) :
    (new retainCompletedMs : InMemoryProcessBatchStore ι ρ).AllInOrder := by
  intro i e he
  cases he

theorem allInOrder_follow (hs : s.AllInOrder) (h : Run.follow step s as = some s') :
    s'.AllInOrder :=
  Run.invariant_of_follow (fun _ _ _ hs hstep => allInOrder_step hs hstep) h hs

theorem executeJob_eq (startedAt now : ℤ) (record : BatchJobRecord ρ) (input : List ι) :
    (executeJob startedAt now record input).results = []
      ∧ (executeJob startedAt now record input).jobs = input := by
  unfold executeJob proceed
  split <;> exact ⟨rfl, rfl⟩

/-- **The status of a finished batch** that has jobs: failed if they all failed, complete if
they all succeeded, and else partly so. -/
theorem resolveBatchStatus_eq {results : List (ProcessBatchItemResult ρ)} (hne : results ≠ []) :
    (resolveBatchStatus results results.length = .failed ↔ ∀ r ∈ results, r.status = .failed)
      ∧ (resolveBatchStatus results results.length = .complete
        ↔ ∀ r ∈ results, r.status = .success) := by
  have hfailed : results.length ≤ (results.filter fun r => r.status = .failed).length
      ↔ ∀ r ∈ results, r.status = .failed := by
    constructor
    · intro hle r hr
      have hall := List.length_filter_eq_length_iff.mp
        (le_antisymm (List.length_filter_le _ _) hle) r hr
      exact of_decide_eq_true hall
    · intro h
      rw [List.filter_eq_self.mpr fun r hr => decide_eq_true (h r hr)]
  have hsome : ∀ status, 0 < (results.filter fun r => r.status = status).length
      ↔ ∃ r ∈ results, r.status = status := by
    intro status
    simp [List.length_pos_iff, List.filter_eq_nil_iff]
  have hsuccess : (∀ r ∈ results, r.status = .success)
      ↔ ¬ ((∃ r ∈ results, r.status = .failed) ∨ ∃ r ∈ results, r.status = .partly) := by
    constructor
    · rintro h (⟨r, hr, hst⟩ | ⟨r, hr, hst⟩) <;> exact absurd ((h r hr).symm.trans hst) (by decide)
    · intro h r hr
      cases hst : r.status with
      | success => rfl
      | partly => exact absurd (.inr ⟨r, hr, hst⟩) h
      | failed => exact absurd (.inl ⟨r, hr, hst⟩) h
  obtain ⟨r₀, hr₀⟩ := List.exists_mem_of_ne_nil results hne
  have hboth : (∀ r ∈ results, r.status = .failed) → ¬ ∀ r ∈ results, r.status = .success :=
    fun hf hs => absurd ((hf r₀ hr₀).symm.trans (hs r₀ hr₀)) (by decide)
  unfold resolveBatchStatus
  simp only [ge_iff_le, hfailed, gt_iff_lt, hsome]
  by_cases hf : ∀ r ∈ results, r.status = .failed
  · rw [if_pos hf]
    exact ⟨iff_of_true rfl hf, iff_of_false (by decide) (hboth hf)⟩
  · rw [if_neg hf]
    by_cases hs : ∀ r ∈ results, r.status = .success
    · rw [if_neg (hsuccess.mp hs)]
      exact ⟨iff_of_false (by decide) hf, iff_of_true rfl hs⟩
    · rw [if_pos (not_not.mp fun hnot => hs (hsuccess.mpr hnot))]
      exact ⟨iff_of_false (by decide) hf, iff_of_false (by decide) hs⟩

/-- A finished record does not change any more. -/
theorem executions_step_of_finished (hs : s.AllInOrder) (h : s.step a = some s')
    (he : s.executions[i]? = some e) (hfinished : e.record.finishedAt ≠ none) :
    s'.executions[i]? = some e := by
  obtain ⟨e', he', hstep⟩ := executions_step h he
  cases ha : outcomeOf i a with
  | none =>
    rw [ha] at hstep
    obtain rfl : e' = e := hstep
    exact he'
  | some outcome =>
    rw [ha] at hstep
    exact absurd ((hs i e he).waiting hstep.1).2 hfinished

theorem executions_follow_of_finished (hs : s.AllInOrder) (h : Run.follow step s as = some s')
    (he : s.executions[i]? = some e) (hfinished : e.record.finishedAt ≠ none) :
    s'.executions[i]? = some e := by
  refine (Run.invariant_of_follow (I := fun s : InMemoryProcessBatchStore ι ρ =>
    s.AllInOrder ∧ s.executions[i]? = some e) (fun s₁ a s₂ hs₁ hstep => ?_) h ⟨hs, he⟩).2
  exact ⟨allInOrder_step hs₁.1 hstep, executions_step_of_finished hs₁.1 hstep hs₁.2 hfinished⟩

/-- **What comes of a batch depends on the outcomes of its own jobs only.** Whatever has
happened before, and whatever happens in between: the record has the results of the outcomes
its jobs had so far, in the order of the jobs; it is running as long as one has not settled,
and then it is finished with the status of the results, for good. It is never queued. -/
theorem batch_follow {retainCompletedMs : Option ℤ} {before after : List (Action ι ρ)}
    {input : List ι} {jobId : String} {now : ℕ → ℤ}
    (hs : Run.follow step (new retainCompletedMs) before = some s)
    (h : Run.follow step (s.submit input jobId now) after = some s') :
    ∃ e, s'.executions[s.executions.length]? = some e
      ∧ e.record.total = input.length
      ∧ e.record.results = resultsOf (after.filterMap (outcomeOf s.executions.length))
      ∧ e.record.completed = e.record.results.length
      ∧ e.record.completed ≤ e.record.total
      ∧ (e.record.completed < e.record.total →
        e.record.status = .running ∧ e.record.finishedAt = none)
      ∧ (e.record.completed = e.record.total →
        e.record.status = resolveBatchStatus e.record.results e.record.total
          ∧ e.record.finishedAt ≠ none
          ∧ (input ≠ [] →
            (e.record.status = .failed ↔ ∀ r ∈ e.record.results, r.status = .failed)
            ∧ (e.record.status = .complete ↔ ∀ r ∈ e.record.results, r.status = .success)))
      ∧ (e.record.finishedAt ≠ none → ∀ later s'', Run.follow step s' later = some s'' →
        s''.executions[s.executions.length]? = some e) := by
  have hbefore := allInOrder_follow (allInOrder_new retainCompletedMs) hs
  have hsubmit : (s.submit input jobId now).AllInOrder :=
    allInOrder_step (a := .submit input jobId now) hbefore rfl
  obtain ⟨e₀, he₀, hjobs₀, hres₀⟩ : ∃ e, (s.submit input jobId now).executions[s.executions.length]?
      = some e ∧ e.jobs = input ∧ e.results = [] := by
    obtain ⟨record, hrecord⟩ : ∃ record, (s.submit input jobId now).executions
        = s.executions ++ [executeJob (now 2) (now 3) record input] := ⟨_, rfl⟩
    obtain ⟨hres, hjobs⟩ := executeJob_eq (now 2) (now 3) record input
    refine ⟨executeJob (now 2) (now 3) record input, ?_, hjobs, hres⟩
    rw [hrecord]
    exact List.getElem?_concat_length
  obtain ⟨e, he, hjobs, hres⟩ := results_follow hsubmit h he₀
    (show e₀.results = resultsOf [] from hres₀)
  have hs' := allInOrder_follow hsubmit h
  have hin := hs' _ e he
  rw [List.nil_append] at hres
  have hcompleted : e.record.completed = e.index := hin.completed_eq.trans hin.index_eq.symm
  refine ⟨e, he, by rw [hin.total_eq, hjobs, hjobs₀], hin.results_eq.trans hres, ?_, ?_, ?_, ?_,
    fun hfinished later s'' hlater => executions_follow_of_finished hs' hlater he hfinished⟩
  · rw [hin.completed_eq, hin.results_eq]
  · rw [hcompleted, hin.total_eq]
    exact hin.index_le
  · rw [hcompleted, hin.total_eq]
    exact hin.waiting
  · intro heq
    obtain ⟨hstatus, hfinished⟩ := hin.finished (hcompleted.symm.trans (heq.trans hin.total_eq))
    have hlength : e.record.total = e.record.results.length := by
      rw [← heq, hin.completed_eq, hin.results_eq]
    refine ⟨by rw [hin.results_eq, hstatus], hfinished, fun hne => ?_⟩
    rw [hstatus, ← hin.results_eq, hlength]
    refine resolveBatchStatus_eq fun hnil => hne ?_
    have htotal : e.record.total = input.length := by rw [hin.total_eq, hjobs, hjobs₀]
    rw [← List.length_eq_zero_iff, ← htotal, hlength, hnil]
    rfl

section TwoJobs

/-- A clock that stands still. -/
def noon : ℕ → ℤ := fun _ => 43200000

/-- A batch of two jobs, the first of which has succeeded. -/
def firstSettled : List (Action String String) :=
  [.settle 0 (.response .success "classified") 43200001]

theorem batch_follow_firstSettled : ∃ e : BatchExecution String String,
    e.record.total = 2 ∧ e.record.completed = 1 ∧ e.record.status = .running := by
  have hfollow : ∃ s', Run.follow step
      ((new none : InMemoryProcessBatchStore String String).submit ["a", "b"] "batch-1" noon)
      firstSettled = some s' := ⟨_, rfl⟩
  obtain ⟨s', hs'⟩ := hfollow
  obtain ⟨e, -, htotal, hresults, hcompleted, -, hrunning, -⟩ :=
    batch_follow (show Run.follow step (new none) [] = some (new none) from rfl) hs'
  have hone : e.record.completed = 1 := by
    rw [hcompleted, hresults]
    rfl
  have htwo : e.record.total = 2 := htotal
  exact ⟨e, htwo, hone, (hrunning (by rw [hone, htwo]; decide)).1⟩

end TwoJobs

/-! ## What a client finds -/

/-- A submission spares a batch: it is under another id, and the batch has not been finished
for longer than is retained. -/
def Spares (jobId : String) (i : ℕ) (s : InMemoryProcessBatchStore ι ρ) : Action ι ρ → Prop
  | .submit _ jobId' now =>
    jobId' ≠ jobId ∧ ∀ f ∈ s.finishedAt i, now 0 - f ≤ s.retainCompletedMs
  | .settle _ _ _ => True

/-- **A step loses a batch exactly if it is a submission that does not spare it.** -/
theorem lookup_step {jobId : String} (hi : i < s.executions.length)
    (hfound : s.jobs.lookup jobId = some i) (h : s.step a = some s') :
    s'.jobs.lookup jobId = some i ↔ Spares jobId i s a := by
  cases a with
  | settle j outcome now =>
    obtain ⟨e₁, -, -, rfl⟩ := step_settle h
    exact iff_of_true hfound trivial
  | submit input jobId' now =>
    obtain rfl := Option.some.inj h
    show (((s.cleanupExpiredCompletedJobs (now 0)).jobs).upsert jobId' _).lookup jobId = some i ↔ _
    rw [Table.lookup_upsert]
    by_cases hid : jobId = jobId'
    · rw [if_pos hid]
      refine iff_of_false (fun heq => ?_) fun hspares => hspares.1 hid.symm
      exact absurd (Option.some.inj heq) hi.ne'
    · rw [if_neg hid, cleanupExpiredCompletedJobs, Table.lookup_deleteRows, hfound]
      show _ ↔ jobId' ≠ jobId ∧ _
      rw [and_iff_right (Ne.symm hid)]
      cases hf : s.finishedAt i with
      | none => simp [hf]
      | some f => simp [hf]

/-- **A client finds its batch exactly as long as it is spared**: until another batch is
submitted under its id, or a batch is submitted when it has been finished for longer than is
retained, which is a minute at least. -/
theorem found_iff_spared {retainCompletedMs : Option ℤ} {before after : List (Action ι ρ)}
    {input : List ι} {jobId : String} {now : ℕ → ℤ}
    (hs : Run.follow step (new retainCompletedMs) before = some s) :
    60000 ≤ s.retainCompletedMs
      ∧ (Run.Always step (fun s' => s'.jobs.lookup jobId = some s.executions.length)
          (s.submit input jobId now) after
        ↔ Run.EachStep step (Spares jobId s.executions.length) (s.submit input jobId now) after)
    := by
  constructor
  · refine Run.invariant_of_follow (I := fun s : InMemoryProcessBatchStore ι ρ =>
      60000 ≤ s.retainCompletedMs) (fun s a s' hle hstep => ?_) hs (le_max_left _ _)
    cases a with
    | submit input jobId now =>
      obtain rfl := Option.some.inj hstep
      exact hle
    | settle j outcome now =>
      obtain ⟨-, -, -, rfl⟩ := step_settle hstep
      exact hle
  · refine Run.always_iff_eachStep_of_kept
      (I := fun s' => s.executions.length < s'.executions.length)
      (fun s₁ a s₂ hlt _ hstep _ => ?_) (fun s₁ a s₂ hlt hfound hstep => ?_) ?_ ?_ after
    · cases a with
      | submit input jobId now =>
        obtain rfl := Option.some.inj hstep
        exact hlt.trans (by simp [submit, cleanupExpiredCompletedJobs])
      | settle j outcome now =>
        obtain ⟨-, -, -, rfl⟩ := step_settle hstep
        simpa using hlt
    · exact lookup_step hlt hfound hstep
    · simp [submit, cleanupExpiredCompletedJobs]
    · show Finmap.lookup jobId (Table.upsert _ jobId _) = _
      rw [Table.lookup_upsert, if_pos rfl]
      rfl

theorem found_iff_spared_new : Run.Always step
      (fun s' : InMemoryProcessBatchStore String String => s'.jobs.lookup "batch-1" = some 0)
      ((new none).submit ["a", "b"] "batch-1" noon) firstSettled
    ↔ Run.EachStep step (Spares "batch-1" 0)
      ((new none : InMemoryProcessBatchStore String String).submit ["a", "b"] "batch-1" noon)
      firstSettled :=
  (found_iff_spared (show Run.follow step (new none) [] = some (new none) from rfl)).2

end InMemoryProcessBatchStore
