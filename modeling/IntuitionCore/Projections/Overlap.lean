import IntuitionCore.Library.Run
import IntuitionCore.Projections.Worker

/-!
# Overlapping runs of a worker

Two processes may run the same worker for a while, as when one replaces the
other. Each reads the checkpoint, reads a batch, applies it and saves the
number of its last event, and the save replaces whatever is there. Between the
read and the save of the one, the other may have saved a larger number, which
the save of the first then takes back.

The checkpoints of a fleet of runs never decrease exactly if no run saves a
number below one that was saved under its key since it read its checkpoint.
-/

/-- Where a run is in an iteration of its loop, and what it has in hand. -/
inductive Stage where
  | idle
  | hasCheckpoint (checkpoint : ℕ)
  | hasBatch (checkpoint : ℕ) (batch : List StoredEvent)
  | hasApplied (checkpoint : ℕ) (batch : List StoredEvent)

/-- The checkpoint a run has read in this iteration. -/
def Stage.checkpoint? : Stage → Option ℕ
  | idle => none
  | hasCheckpoint checkpoint => some checkpoint
  | hasBatch checkpoint _ => some checkpoint
  | hasApplied checkpoint _ => some checkpoint

/-- The batch a run has read, with the checkpoint it was read from. -/
def Stage.batch? : Stage → Option (ℕ × List StoredEvent)
  | hasBatch checkpoint batch => some (checkpoint, batch)
  | hasApplied checkpoint batch => some (checkpoint, batch)
  | _ => none

/-- A fleet of runs on one service. -/
structure Fleet (ι : Type) where
  service : Service
  stage : ι → Stage := fun _ => .idle
  /-- What has been saved under the key of a run since it read its checkpoint.
  Nothing reads it. -/
  savedSince : ι → List ℕ := fun _ => []

namespace Fleet

/-- A step of a run, or of those that write the event store. -/
inductive Action (ι : Type) where
  | appends (events : List StoredEvent)
  | getsCheckpoint (i : ι)
  | reads (i : ι)
  | applies (i : ι)
  | saves (i : ι)
  | backsOff (i : ι)

variable {ι : Type} [DecidableEq ι] (ext : Externals) (worker : ι → PgWorker)

/-- The fleet after a run has come to a stage. -/
def setStage (s : Fleet ι) (i : ι) (stage : Stage) : Fleet ι :=
  { s with stage := Function.update s.stage i stage }

/-- A run reads its checkpoint. -/
def getCheckpoint (s : Fleet ι) (i : ι) : Option (Fleet ι) :=
  match s.stage i with
  | .idle =>
    some { s.setStage i (.hasCheckpoint ((worker i).checkpoint s.service)) with
      savedSince := Function.update s.savedSince i [] }
  | _ => none

/-- A run reads the batch after the checkpoint it has read; if there is none it
sleeps. -/
def read (s : Fleet ι) (i : ι) : Option (Fleet ι) :=
  match s.stage i with
  | .hasCheckpoint checkpoint =>
    match EventReader.readBatchMulti s.service.eventStore (worker i).eventTypeStrs checkpoint
        (worker i).batchSize with
    | [] => some (s.setStage i .idle)
    | batch => some (s.setStage i (.hasBatch checkpoint batch))
  | _ => none

/-- A run applies its batch in one transaction. -/
def apply (s : Fleet ι) (i : ι) : Option (Fleet ι) :=
  match s.stage i with
  | .hasBatch checkpoint batch =>
    match (worker i).applyBatch ext s.service batch with
    | .ok service => some { s.setStage i (.hasApplied checkpoint batch) with service }
    | .error _ => none
  | _ => none

/-- A run saves the checkpoint of its batch. -/
def save (s : Fleet ι) (i : ι) : Option (Fleet ι) :=
  match s.stage i with
  | .hasApplied _ batch =>
    some { s.setStage i .idle with
      service := (worker i).saveCheckpoint s.service batch
      savedSince := fun j =>
        if (worker j).projection.checkpointName = (worker i).projection.checkpointName then
          ((resolveCheckpointTarget batch).map Prod.fst).toList ++ s.savedSince j
        else s.savedSince j }
  | _ => none

/-- What an action does, where it is possible. A run whose step fails, or whose
process is restarted, begins its loop again. -/
def step (s : Fleet ι) : Action ι → Option (Fleet ι)
  | .appends events =>
    some { s with service := { s.service with eventStore := s.service.eventStore ++ events } }
  | .getsCheckpoint i => s.getCheckpoint worker i
  | .reads i => s.read worker i
  | .applies i => s.apply ext worker i
  | .saves i => s.save worker i
  | .backsOff i => some (s.setStage i .idle)

/-- The number stored under each key of projection and sink. -/
def checkpoints (s : Fleet ι) (key : String × String) : ℕ :=
  s.service.checkpoints.getCheckpoint key.1 key.2

/-- **No run is overtaken**: a run saves no number below one that was saved
under its key since it read its checkpoint. -/
def NotOvertaken (s : Fleet ι) : Action ι → Prop
  | .saves i => ∀ checkpoint batch, s.stage i = .hasApplied checkpoint batch →
      ∀ last ∈ batch.getLast?, ∀ n ∈ s.savedSince i, n ≤ last.sequenceNumber
  | _ => True

/-! ## What a run has read -/

/-- Of a checkpoint a run has read: nothing above what is stored has been saved
since, and what is stored is either that checkpoint or was saved since. -/
structure Follows (s : Fleet ι) (i : ι) (checkpoint : ℕ) : Prop where
  le_stored : checkpoint ≤ (worker i).checkpoint s.service
  saved_le_stored : ∀ n ∈ s.savedSince i, n ≤ (worker i).checkpoint s.service
  stored_eq_or_mem : (worker i).checkpoint s.service = checkpoint
    ∨ (worker i).checkpoint s.service ∈ s.savedSince i

/-- What is so as long as no checkpoint has decreased. -/
structure Ok (s : Fleet ι) : Prop where
  follows : ∀ i checkpoint, (s.stage i).checkpoint? = some checkpoint →
    s.Follows worker i checkpoint
  ahead : ∀ i checkpoint batch, (s.stage i).batch? = some (checkpoint, batch) →
    ∃ last ∈ batch.getLast?, checkpoint < last.sequenceNumber

variable {ext : Externals} {worker : ι → PgWorker} {s s' : Fleet ι} {i : ι}

/-! ## Each step -/

theorem getCheckpoint_eq_some (h : s.getCheckpoint worker i = some s') :
    s' = { s.setStage i (.hasCheckpoint ((worker i).checkpoint s.service)) with
      savedSince := Function.update s.savedSince i [] } := by
  unfold getCheckpoint at h
  split at h <;> cases h
  rfl

/-- A run that reads goes back to sleep, or has a batch with a last event after
its checkpoint. -/
theorem read_eq_some (h : s.read worker i = some s') :
    s' = s.setStage i .idle ∨ ∃ checkpoint batch,
      (s.stage i).checkpoint? = some checkpoint
      ∧ (∃ last ∈ batch.getLast?, checkpoint < last.sequenceNumber)
      ∧ s' = s.setStage i (.hasBatch checkpoint batch) := by
  unfold read at h
  split at h
  · next checkpoint hstage =>
    split at h
    · cases h
      exact .inl rfl
    · next hne =>
      cases h
      refine .inr ⟨checkpoint, _, by rw [hstage]; rfl, ?_, rfl⟩
      have hlast := List.getLast_mem_getLast? hne
      exact ⟨_, hlast,
        (EventReader.mem_of_mem_readBatchMulti (List.mem_of_mem_getLast? hlast)).2.2⟩
  · cases h

/-- A run that applies its batch leaves the checkpoints alone. -/
theorem apply_eq_some (h : s.apply ext worker i = some s') :
    ∃ checkpoint batch service, s.stage i = .hasBatch checkpoint batch
      ∧ service.checkpoints = s.service.checkpoints
      ∧ s' = { s.setStage i (.hasApplied checkpoint batch) with service } := by
  unfold apply at h
  split at h
  · next checkpoint batch hstage =>
    split at h
    · next service hok =>
      cases h
      obtain ⟨stores, -, hservice⟩ := Result.bind_eq_ok.mp hok
      cases hservice
      exact ⟨checkpoint, batch, { s.service with stores }, hstage, rfl, rfl⟩
    · cases h
  · cases h

/-- A run that saves replaces the number stored under its key by that of the
last event of its batch, for all the runs with that key to see. -/
theorem save_eq_some (hok : s.Ok worker) (h : s.save worker i = some s') :
    ∃ checkpoint batch last, s.stage i = .hasApplied checkpoint batch
      ∧ last ∈ batch.getLast? ∧ checkpoint < last.sequenceNumber
      ∧ s'.stage = Function.update s.stage i .idle
      ∧ s'.checkpoints = Function.update s.checkpoints
          ((worker i).projection.checkpointName, "pg") last.sequenceNumber
      ∧ ∀ j, s'.savedSince j
        = if (worker j).projection.checkpointName = (worker i).projection.checkpointName then
            last.sequenceNumber :: s.savedSince j
          else s.savedSince j := by
  unfold save at h
  split at h
  · next checkpoint batch hstage =>
    cases h
    obtain ⟨last, hlast, hlt⟩ := hok.ahead i checkpoint batch (by rw [hstage]; rfl)
    have htarget : resolveCheckpointTarget batch
        = some (last.sequenceNumber, last.blockNumber) := by
      unfold resolveCheckpointTarget
      rw [Option.mem_def.mp hlast]
      rfl
    refine ⟨checkpoint, batch, last, hstage, hlast, hlt, rfl, ?_, fun j => ?_⟩
    · funext key
      unfold checkpoints PgWorker.saveCheckpoint
      rw [htarget, Function.update_apply]
      exact CheckpointStore.getCheckpoint_saveCheckpoint_key _ _ _ _ _ key
    · rw [htarget]
      rfl
  · cases h

omit [DecidableEq ι] in
/-- The stored checkpoint of a run, among all that are stored. -/
theorem checkpoint_eq (s : Fleet ι) (i : ι) :
    (worker i).checkpoint s.service
      = s.checkpoints ((worker i).projection.checkpointName, "pg") := rfl

/-- A run that comes to another stage with the checkpoint it has read, or
without one, changes nothing for the others. -/
theorem Ok.setStage (h : s.Ok worker) {stage : Stage} {service : Service}
    (hservice : service.checkpoints = s.service.checkpoints)
    (hcheckpoint : ∀ c, stage.checkpoint? = some c → (s.stage i).checkpoint? = some c)
    (hbatch : ∀ c batch, stage.batch? = some (c, batch) →
      ∃ last ∈ batch.getLast?, c < last.sequenceNumber) :
    ({ s.setStage i stage with service } : Fleet ι).Ok worker := by
  have hstored : ∀ j, (worker j).checkpoint service = (worker j).checkpoint s.service :=
    fun j => by unfold PgWorker.checkpoint; rw [hservice]
  constructor
  · intro j c hc
    have hc' : (s.stage j).checkpoint? = some c := by
      by_cases hj : j = i
      · subst hj
        exact hcheckpoint c (by simpa [Fleet.setStage] using hc)
      · simpa [Fleet.setStage, hj] using hc
    obtain ⟨hle, hsaved, hor⟩ := h.follows j c hc'
    rw [← hstored] at hle hsaved hor
    exact ⟨hle, hsaved, hor⟩
  · intro j c batch hb
    by_cases hj : j = i
    · subst hj
      exact hbatch c batch (by simpa [Fleet.setStage] using hb)
    · exact h.ahead j c batch (by simpa [Fleet.setStage, hj] using hb)

/-- A run that has just read its checkpoint follows it. -/
theorem Ok.getCheckpoint (h : s.Ok worker) :
    ({ s.setStage i (.hasCheckpoint ((worker i).checkpoint s.service)) with
      savedSince := Function.update s.savedSince i [] } : Fleet ι).Ok worker := by
  constructor
  · intro j c hc
    by_cases hj : j = i
    · subst hj
      have hc' : (worker j).checkpoint s.service = c := by
        simpa [Fleet.setStage, Stage.checkpoint?] using hc
      exact ⟨hc'.ge, by simp, .inl hc'⟩
    · obtain ⟨hle, hsaved, hor⟩ := h.follows j c (by simpa [Fleet.setStage, hj] using hc)
      refine ⟨hle, ?_, ?_⟩
      · simpa [Fleet.setStage, hj] using hsaved
      · simpa [Fleet.setStage, hj] using hor
  · intro j c batch hb
    by_cases hj : j = i
    · subst hj
      simp [Fleet.setStage, Stage.batch?] at hb
    · exact h.ahead j c batch (by simpa [Fleet.setStage, hj] using hb)

/-- A save that lowers no checkpoint is followed by the runs with its key. -/
theorem Ok.save (h : s.Ok worker) (hs' : s.save worker i = some s')
    (hle : s.checkpoints ≤ s'.checkpoints) : s'.Ok worker := by
  obtain ⟨c₀, batch₀, last, hstage, hlast, hlt, hstage', hckpt, hsaved⟩ := save_eq_some h hs'
  constructor
  · intro j c hc
    have hc' : (s.stage j).checkpoint? = some c := by
      rw [hstage'] at hc
      by_cases hj : j = i
      · subst hj
        simp [Stage.checkpoint?] at hc
      · simpa [hj] using hc
    obtain ⟨hc_le, hsaved_le, hor⟩ := h.follows j c hc'
    rw [checkpoint_eq] at hc_le hsaved_le hor
    constructor <;> rw [checkpoint_eq]
    · exact hc_le.trans (hle _)
    · intro n hn
      rw [hsaved j] at hn
      by_cases hkey : (worker j).projection.checkpointName = (worker i).projection.checkpointName
      · rw [if_pos hkey] at hn
        obtain rfl | hn := List.mem_cons.mp hn
        · rw [hckpt, hkey, Function.update_self]
        · exact (hsaved_le n hn).trans (hle _)
      · rw [if_neg hkey] at hn
        exact (hsaved_le n hn).trans (hle _)
    · by_cases hkey : (worker j).projection.checkpointName = (worker i).projection.checkpointName
      · right
        rw [hsaved j, if_pos hkey, hckpt, hkey, Function.update_self]
        exact List.mem_cons_self
      · rw [hsaved j, if_neg hkey, hckpt,
          Function.update_of_ne fun heq => hkey (congrArg Prod.fst heq)]
        exact hor
  · intro j c batch hb
    rw [hstage'] at hb
    by_cases hj : j = i
    · subst hj
      simp [Stage.batch?] at hb
    · exact h.ahead j c batch (by simpa [hj] using hb)

/-- A save lowers no checkpoint exactly if its run has not been overtaken. -/
theorem le_checkpoints_iff_of_save (h : s.Ok worker) (hs' : s.save worker i = some s') :
    s.checkpoints ≤ s'.checkpoints ↔ s.NotOvertaken (.saves i) := by
  obtain ⟨c, batch, last, hstage, hlast, hlt, -, hckpt, -⟩ := save_eq_some h hs'
  have hfollows := h.follows i c (by rw [hstage]; rfl)
  have hiff : s.checkpoints ≤ s'.checkpoints
      ↔ (worker i).checkpoint s.service ≤ last.sequenceNumber := by
    rw [hckpt, le_update_self_iff]
    exact Iff.rfl
  rw [hiff]
  constructor
  · intro hle c' batch' hstage' last' hlast' n hn
    cases hstage.symm.trans hstage'
    cases Option.mem_unique hlast hlast'
    exact (hfollows.saved_le_stored n hn).trans hle
  · intro hsafe
    obtain heq | hmem := hfollows.stored_eq_or_mem
    · exact heq.trans_le hlt.le
    · exact hsafe c batch hstage last hlast _ hmem

/-! ## All schedules -/

/-- What is so as long as no checkpoint has decreased stays so. -/
theorem Ok.step {a : Action ι} (h : s.Ok worker) (hs' : s.step ext worker a = some s')
    (hle : s.checkpoints ≤ s'.checkpoints) : s'.Ok worker := by
  cases a with
  | appends events =>
    cases hs'
    refine ⟨fun i c hc => ?_, h.ahead⟩
    obtain ⟨hle, hsaved, hor⟩ := h.follows i c hc
    exact ⟨hle, hsaved, hor⟩
  | getsCheckpoint i =>
    rw [getCheckpoint_eq_some hs']
    exact h.getCheckpoint
  | reads i =>
    obtain rfl | ⟨c, batch, hc, hlast, rfl⟩ := read_eq_some hs'
    · exact h.setStage rfl (fun _ hc => nomatch hc) fun _ _ hb => nomatch hb
    · refine h.setStage rfl (fun c' hc' => ?_) fun c' batch' hb => ?_
      · cases hc'
        exact hc
      · cases hb
        exact hlast
  | applies i =>
    obtain ⟨c, batch, service, hstage, hservice, rfl⟩ := apply_eq_some hs'
    refine h.setStage hservice (fun c' hc' => ?_) fun c' batch' hb => ?_
    · cases hc'
      rw [hstage]
      rfl
    · cases hb
      exact h.ahead i c batch (by rw [hstage]; rfl)
  | saves i => exact h.save hs' hle
  | backsOff i =>
    cases hs'
    exact h.setStage rfl (fun _ hc => nomatch hc) fun _ _ hb => nomatch hb

/-- A step lowers no checkpoint exactly if it is not the save of a run that has
been overtaken. -/
theorem le_checkpoints_iff {a : Action ι} (h : s.Ok worker)
    (hs' : s.step ext worker a = some s') :
    s.checkpoints ≤ s'.checkpoints ↔ s.NotOvertaken a := by
  cases a with
  | saves i => exact le_checkpoints_iff_of_save h hs'
  | appends events =>
    cases hs'
    exact iff_of_true le_rfl trivial
  | getsCheckpoint i =>
    rw [getCheckpoint_eq_some hs']
    exact iff_of_true le_rfl trivial
  | reads i =>
    obtain rfl | ⟨c, batch, -, -, rfl⟩ := read_eq_some hs' <;> exact iff_of_true le_rfl trivial
  | applies i =>
    obtain ⟨c, batch, service, -, hservice, rfl⟩ := apply_eq_some hs'
    refine iff_of_true (le_of_eq (funext fun key => ?_)) trivial
    show s.service.checkpoints.getCheckpoint _ _ = service.checkpoints.getCheckpoint _ _
    rw [hservice]
  | backsOff i =>
    cases hs'
    exact iff_of_true le_rfl trivial

omit [DecidableEq ι] in
theorem ok_start (service : Service) : ({ service } : Fleet ι).Ok worker where
  follows _ _ hc := nomatch hc
  ahead _ _ _ hb := nomatch hb

/-- **Checkpoints never decrease exactly if no run is overtaken**, whatever the
runs are and however their steps interleave. -/
theorem rising_checkpoints_iff (ext : Externals) (worker : ι → PgWorker) (service : Service)
    (as : List (Action ι)) :
    Run.Rising (step ext worker) checkpoints { service } as
      ↔ Run.EachStep (step ext worker) NotOvertaken { service } as :=
  Run.rising_iff_eachStep (I := fun s => s.Ok worker)
    (fun _ _ _ hs hs' hle => hs.step hs' hle) (fun _ _ _ hs hs' => le_checkpoints_iff hs hs')
    (ok_start service) as

/-! ## A rolling deployment -/

/-- The deposit after the first one. -/
def secondDeposit : StoredEvent :=
  { firstDeposit with sequenceNumber := 2, blockNumber := 101, transactionHash := "0xty" }

/-- The worker of `vault_state`, in one shard. -/
def rollingWorker : PgWorker := ⟨.vaultState 0 1, 500⟩

/-- What happens before the old process saves: both processes read the first
deposit, and the new one saves it and a second deposit. -/
def untilOldSaves : List (Action Bool) :=
  [.getsCheckpoint false, .reads false, .getsCheckpoint true, .reads true, .applies true,
    .saves true, .appends [secondDeposit], .getsCheckpoint true, .reads true, .applies true,
    .saves true, .applies false]

/-- **A run that has been overtaken takes the checkpoint back**: the old process
saves the number of the first deposit after the new one has saved that of the
second. -/
theorem overtaken_run_not_rising :
    ¬ Run.Rising (step .exact fun _ => rollingWorker) checkpoints
      { service := { eventStore := [firstDeposit] } } (untilOldSaves ++ [.saves false]) := by
  let start : Fleet Bool := { service := { eventStore := [firstDeposit] } }
  let stored : Fleet Bool → ℕ := fun s => s.checkpoints ("vault_state", "pg")
  have hbefore : (Run.follow (step .exact fun _ => rollingWorker) start untilOldSaves).map stored
      = some 2 := by decide +kernel
  have hafter : (Run.follow (step .exact fun _ => rollingWorker) start
      (untilOldSaves ++ [.saves false])).map stored = some 1 := by decide +kernel
  obtain ⟨s₁, hs₁, htwo⟩ := Option.map_eq_some_iff.mp hbefore
  rw [Run.follow_append, hs₁] at hafter
  obtain ⟨s₂, hs₂, hone⟩ := Option.map_eq_some_iff.mp hafter
  intro hrising
  have hle : stored s₁ ≤ stored s₂ := hrising.le_of_follow hs₁ hs₂ ("vault_state", "pg")
  rw [htwo, hone] at hle
  exact absurd hle (by decide)

end Fleet
