import IntuitionCore.Activity.Cycles
import IntuitionCore.Library.Owed

/-!
# What becomes of an activity mark

A drain is committed before the accounts it found are computed. If the cycle fails
after that, nobody knows of the accounts that it has left: the next attempt drains
again, and finds what was marked since. So marks are kept exactly if no cycle fails
while it has an account left that is still to be computed for a mark, unless the
account was marked again or another cycle has it too.
-/

open UserActivityRepo ActivityMarkerProjection

/-- An account is left to a cycle: the transaction that computes it is not
committed. -/
def ActivityPhase.HasLeft (accountId : String) : ActivityPhase → Prop
  | .recomputing remaining => accountId ∈ remaining
  | .chunk c => accountId ∈ c.accounts ∨ accountId ∈ c.rest
  | _ => False

/-- Nothing is left to an idle cycle. -/
theorem ActivityPhase.Idle.not_hasLeft {phase : ActivityPhase} (h : phase.Idle) (a : String) :
    ¬ phase.HasLeft a := by
  cases phase <;> first | exact h.elim | exact id

namespace ActivityCommit

/-- The accounts that a commit marked. -/
def marks : ActivityCommit → Set String
  | marked events => {a | ∃ e ∈ events, a ∈ touchedAccounts e}
  | recomputed _ => ∅

/-- The accounts whose profile a commit computed. -/
def settles : ActivityCommit → Set String
  | marked _ => ∅
  | recomputed accounts => {a | a ∈ accounts}

end ActivityCommit

namespace ActivityCycles

variable (s : ActivityCycles)

/-- The accounts whose profile has not been computed since they were marked. -/
def owed : Set String := Owed ActivityCommit.marks ActivityCommit.settles s.commits

/-- The accounts that are marked. -/
def dirty : Set String := {a | IsMarked s.db a}

/-- The accounts that are left to a running cycle. -/
def leftTo (i : ℕ) : Set String :=
  {a | ∃ c, s.cycles.lookup i = some c ∧ c.phase.HasLeft a}

/-- **No mark is lost**: each account whose profile has not been computed since it was
marked is still marked, or belongs to a cycle that is running. -/
def MarksKept : Prop := Owed.Kept s.owed s.dirty s.leftTo

/-- A cycle that fails leaves nothing to compute: each account it has left was
computed since its mark, or was marked again, or is left to another cycle. -/
def MayFail : Action → Prop
  | .fail i => ∀ a ∈ s.owed, a ∈ s.leftTo i → a ∈ s.dirty ∨ ∃ j ≠ i, a ∈ s.leftTo j
  | _ => True

/-- Each account of an open chunk has its profile written, or is to have it. -/
def ChunksGoOn : Prop :=
  ∀ i c, s.cycles.lookup i = some c → ∀ chunk, c.phase = .chunk chunk →
    ∀ a ∈ chunk.accounts, a ∈ chunk.profiles.map Prod.fst ∨ .profile a ∈ chunk.todo

variable {s} {s' : ActivityCycles} {i : ℕ} {c : Option ActivityCycle}

/-! ## The cycles -/

/-- What is left to a cycle that came to be somewhere. -/
theorem leftTo_setCycle_self : (s.setCycle i c).leftTo i = {a | ∃ d ∈ c, d.phase.HasLeft a} := by
  ext a
  unfold leftTo
  rw [lookup_setCycle, if_pos rfl]
  rfl

/-- What is left to the others. -/
theorem leftTo_setCycle_of_ne {j : ℕ} (h : j ≠ i) : (s.setCycle i c).leftTo j = s.leftTo j := by
  unfold leftTo
  rw [lookup_setCycle, if_neg h]

/-- What is left to a cycle in a phase. -/
theorem mem_leftTo {d : ActivityCycle} (hc : s.cycles.lookup i = some d) {a : String} :
    a ∈ s.leftTo i ↔ d.phase.HasLeft a := by
  constructor
  · rintro ⟨d', hd', h⟩
    obtain rfl := Option.some.inj (hc.symm.trans hd')
    exact h
  · exact fun h => ⟨d, hc, h⟩

/-- Chunks go on whatever happens. -/
theorem ChunksGoOn.step {a : Action} (h : s.ChunksGoOn) (hstep : s.step a = some s') :
    s'.ChunksGoOn := by
  cases effect_of_step hstep with
  | ingest => exact h
  | mark => exact h
  | quiet _ i c _ _ _ hafter =>
    refine forall_setCycle h fun d hd chunk hchunk => ?_
    have hidle := hafter d hd
    rw [hchunk] at hidle
    exact hidle.elim
  | commitDrain | aggregate | writeRollups | commitChunk =>
    refine forall_setCycle h fun d hd chunk hchunk => ?_
    obtain rfl := Option.some.inj hd
    cases hchunk
  | finish | fail => exact forall_setCycle h nofun
  | beginChunk i now remaining marks hc =>
    refine forall_setCycle h fun d hd chunk hchunk => ?_
    obtain rfl := Option.some.inj hd
    cases hchunk
    exact fun a ha => .inr (List.mem_flatMap.mpr ⟨a, ha, by simp⟩)
  | rollup i c marks accountId todo hc htodo hfree =>
    refine forall_setCycle h fun d hd chunk hchunk => ?_
    obtain rfl := Option.some.inj hd
    cases hchunk
    intro a ha
    have hgo := h i _ hc c rfl a ha
    rw [htodo] at hgo
    simpa using hgo
  | profile i c marks accountId todo profile hc htodo =>
    refine forall_setCycle h fun d hd chunk hchunk => ?_
    obtain rfl := Option.some.inj hd
    cases hchunk
    intro a ha
    have hgo := h i _ hc c rfl a ha
    rw [htodo] at hgo
    simp only [List.map_append, List.mem_append, List.mem_cons,
      ChunkStatement.profile.injEq] at hgo ⊢
    obtain hgo | rfl | hgo := hgo
    · exact .inl (.inl hgo)
    · exact .inl (.inr (by simp))
    · exact .inr hgo

/-! ## What a step does to the marks -/

/-- A marked batch marks the accounts it touches. -/
theorem mem_dirty_mark {events : List ParsedEvent} {db : ActivityDb} {a : String} :
    IsMarked (Transaction.applyAll (events.flatMap statements) db) a
      ↔ (∃ e ∈ events, a ∈ touchedAccounts e) ∨ IsMarked db a :=
  Transaction.has_applyAll isMarked_applyAll

/-- The dirty set without the accounts that were drained. -/
theorem isMarked_deleteDirtyAccounts {db : ActivityDb} {accounts : Finset String} {a : String} :
    IsMarked (deleteDirtyAccounts db accounts) a ↔ IsMarked db a ∧ a ∉ accounts :=
  Table.mem_deleteRows_keys

/-- A cycle that goes on without taking marks or computing profiles keeps the marks,
if all it had left is left to it. -/
theorem MarksKept.of_goesOn (h : s.MarksKept) (hcycles : s'.cycles = (s.setCycle i c).cycles)
    (hcommits : s'.commits = s.commits) (hdb : s'.db = s.db)
    (hleft : ∀ a ∈ s.leftTo i, ∃ d ∈ c, d.phase.HasLeft a) : s'.MarksKept := by
  have hsame : s'.leftTo = (s.setCycle i c).leftTo := by
    unfold leftTo
    rw [hcycles]
  unfold MarksKept owed dirty
  rw [hcommits, hdb, hsame]
  refine Owed.Kept.of_worker (i := i) h (fun j hj => leftTo_setCycle_of_ne hj) (fun _ ha => ha)
    (fun _ _ ha => .inl ha) fun a _ ha => .inr (.inl ?_)
  rw [leftTo_setCycle_self]
  exact hleft a ha

/-- **What was marked is in the dirty set**, and nothing leaves it. -/
theorem MarksKept.of_mark {events : List ParsedEvent} {pending : Finset (String × ParsedEvent)}
    (h : s.MarksKept) :
    MarksKept
      { s with
        db := Transaction.applyAll (events.flatMap statements) s.db
        commits := .marked events :: s.commits
        pending } := by
  intro a ha
  obtain hmade | ⟨ha', -⟩ := Owed.mem_cons.mp ha
  · exact .inl (mem_dirty_mark.mpr (.inl hmade))
  · exact (h a ha').imp_left fun hd => mem_dirty_mark.mpr (.inr hd)

/-- **What a committed drain took from the dirty set is left to its cycle.** -/
theorem MarksKept.of_commitDrain {order : List String} {accounts : Finset String}
    {marks marks' pending : Finset (String × ParsedEvent)} (h : s.MarksKept)
    (hc : s.cycles.lookup i = some ⟨.drained accounts, marks⟩)
    (horder : order.toFinset = accounts) :
    MarksKept
      { s.setCycle i (some ⟨.recomputing order, marks'⟩) with
        db := deleteDirtyAccounts s.db accounts
        pending } := by
  refine Owed.Kept.of_worker (i := i) h (fun j hj => leftTo_setCycle_of_ne hj) (fun _ ha => ha)
    (fun a _ ha => ?_) fun a _ ha => ((mem_leftTo hc).mp ha).elim
  by_cases hmem : a ∈ accounts
  · refine .inr ⟨⟨.recomputing order, marks'⟩, ?_, List.mem_toFinset.mp (horder ▸ hmem)⟩
    exact (lookup_setCycle _).trans (if_pos rfl)
  · exact .inl (isMarked_deleteDirtyAccounts.mpr ⟨ha, hmem⟩)

/-- **A committed chunk settles the marks it takes from its cycle.** -/
theorem MarksKept.of_commitChunk {chunk : OpenChunk} {marks : Finset (String × ParsedEvent)}
    {profiles : Table String ActivityProfile} (h : s.MarksKept) (hgo : s.ChunksGoOn)
    (hc : s.cycles.lookup i = some ⟨.chunk chunk, marks⟩) (htodo : chunk.todo = []) :
    MarksKept
      { (s.write chunk.rollups).setCycle i (some ⟨.recomputing chunk.rest, marks⟩) with
        profiles
        commits := .recomputed (chunk.profiles.map Prod.fst) :: s.commits } := by
  -- what is still owed is of accounts whose profile was not written
  have howed : ∀ a ∈ Owed ActivityCommit.marks ActivityCommit.settles
      (.recomputed (chunk.profiles.map Prod.fst) :: s.commits),
      a ∈ s.owed ∧ a ∉ chunk.profiles.map Prod.fst := by
    intro a ha
    exact (Owed.mem_cons.mp ha).resolve_left (Set.notMem_empty a)
  refine Owed.Kept.of_worker (i := i) h (fun j hj => leftTo_setCycle_of_ne hj)
    (fun a ha => (howed a ha).1) (fun _ _ ha => .inl ha) fun a ha hleft => .inr (.inl ?_)
  refine ⟨⟨.recomputing chunk.rest, marks⟩, (lookup_setCycle _).trans (if_pos rfl), ?_⟩
  obtain hmem | hmem := (mem_leftTo hc).mp hleft
  · obtain hwritten | hnext := hgo i _ hc chunk rfl a hmem
    · exact absurd hwritten (howed a ha).2
    · rw [htodo] at hnext
      exact absurd hnext List.not_mem_nil
  · exact hmem

/-- **Only a failure can lose a mark**, and what it must be for that. -/
theorem marksKept_step_iff {a : Action} (hgo : s.ChunksGoOn) (h : s.MarksKept)
    (hstep : s.step a = some s') : s'.MarksKept ↔ s.MayFail a := by
  cases effect_of_step hstep with
  | ingest => exact iff_of_true h trivial
  | mark => exact iff_of_true h.of_mark trivial
  | quiet a i c backfill ha hbefore hafter =>
    have hsafe : s.MayFail a := by cases a <;> trivial
    refine iff_of_true (h.of_goesOn rfl rfl rfl fun b hb => ?_) hsafe
    obtain ⟨d, hd, hleft⟩ := hb
    exact absurd hleft ((hbefore d hd).not_hasLeft b)
  | commitDrain i order accounts marks hc horder =>
    exact iff_of_true (h.of_commitDrain hc horder) trivial
  | beginChunk i now remaining marks hc =>
    refine iff_of_true (h.of_goesOn rfl rfl rfl fun b hb => ⟨_, rfl, ?_⟩) trivial
    have hmem : b ∈ remaining := (mem_leftTo hc).mp hb
    rwa [← List.take_append_drop profileBatchSize remaining, List.mem_append] at hmem
  | rollup i chunk marks accountId todo hc =>
    exact iff_of_true (h.of_goesOn rfl rfl rfl fun b hb => ⟨_, rfl, (mem_leftTo hc).mp hb⟩) trivial
  | profile i chunk marks accountId todo profile hc =>
    exact iff_of_true (h.of_goesOn rfl rfl rfl fun b hb => ⟨_, rfl, (mem_leftTo hc).mp hb⟩) trivial
  | commitChunk i chunk marks profiles hc htodo =>
    exact iff_of_true (h.of_commitChunk hgo hc htodo) trivial
  | finish i marks hc =>
    refine iff_of_true (h.of_goesOn (i := i) (c := none) rfl rfl rfl fun b hb => ?_) trivial
    exact absurd ((mem_leftTo hc).mp hb) List.not_mem_nil
  | aggregate i day today marks hc =>
    exact iff_of_true (h.of_goesOn rfl rfl rfl fun b hb => ((mem_leftTo hc).mp hb).elim) trivial
  | writeRollups i day today rollups present marks hc =>
    exact iff_of_true (h.of_goesOn rfl rfl rfl fun b hb => ((mem_leftTo hc).mp hb).elim) trivial
  | fail i c hc =>
    refine Owed.Kept.drop_iff h (fun j hj => leftTo_setCycle_of_ne hj) ?_
    rw [leftTo_setCycle_self]
    simp

end ActivityCycles

/-- **Activity marks are kept exactly if no cycle fails with an account left.** Whatever
markers and cycles do, and in whatever order, each account whose profile has not been
computed since its last mark is still marked or belongs to a running cycle, in every
state that is passed, if and only if each cycle that fails has no account left that is
still to be computed, is not marked again, and is left to no other cycle. -/
theorem activity_marks_kept_iff (events : List ParsedEvent) (db : ActivityDb)
    (daily : Table (String × ℤ) DailyRollup) (profiles : Table String ActivityProfile)
    (backfill : BackfillState) (schedule : List ActivityCycles.Action) :
    Run.Always ActivityCycles.step ActivityCycles.MarksKept
        { events, db, daily, profiles, backfill } schedule
      ↔ Run.EachStep ActivityCycles.step ActivityCycles.MayFail
        { events, db, daily, profiles, backfill } schedule := by
  refine Run.always_iff_eachStep (I := ActivityCycles.ChunksGoOn)
    (fun _ _ _ hgo hstep => hgo.step hstep)
    (fun _ _ _ hgo hkept hstep => ActivityCycles.marksKept_step_iff hgo hkept hstep) ?_ ?_ schedule
  · intro i c hc
    cases hc
  · intro a ha
    rw [ActivityCycles.owed, Owed.nil] at ha
    exact ha.elim

/-! ## A cycle that fails after its drain -/

/-- A deposit is stored and marked, after a backfill that found nothing. The cycle that
drains the mark fails before it has computed the account. -/
def failsAfterActivityDrain : List ActivityCycles.Action :=
  [.begin 0, .planBackfill 0 0, .complete 0,
    .ingest [ParsedEvent.parseOrUnknown firstDeposit],
    .mark [ParsedEvent.parseOrUnknown firstDeposit],
    .begin 1, .drain 1 {"0xa"}, .commitDrain 1 ["0xa"], .beginChunk 1 0, .fail 1]

/-- **A mark can be lost**: nothing is left of it after the failure. -/
theorem failsAfterActivityDrain_loses_mark :
    ¬ ∀ (schedule : List ActivityCycles.Action) (s : ActivityCycles),
      Run.follow ActivityCycles.step {} schedule = some s → s.MarksKept := by
  intro h
  have hrun : (Run.follow ActivityCycles.step {} failsAfterActivityDrain).map
      (fun s => (s.db.dirtyAccountActivity.keys, s.cycles.keys, s.commits))
      = some (∅, ∅, [.marked [ParsedEvent.parseOrUnknown firstDeposit]]) := by
    decide +kernel
  obtain ⟨s, hs, heq⟩ := Option.map_eq_some_iff.mp hrun
  simp only [Prod.mk.injEq] at heq
  obtain ⟨hdirty, hcycles, hcommits⟩ := heq
  have howed : "0xa" ∈ s.owed := by
    rw [ActivityCycles.owed, hcommits]
    exact Owed.mem_cons.mpr (.inl ⟨_, List.mem_singleton_self _, by decide +kernel⟩)
  obtain hd | ⟨i, c, hc, -⟩ := h failsAfterActivityDrain s hs _ howed
  · exact Finset.notMem_empty _ (hdirty ▸ Finmap.mem_keys.mpr hd)
  · exact Finset.notMem_empty i (hcycles ▸ Finmap.mem_keys.mpr (Finmap.mem_iff.mpr ⟨c, hc⟩))
