import IntuitionCore.Library.Run
import Mathlib.Data.Finset.Card
import Mathlib.Data.Finset.Dedup

/-!
# The scheduler of a worker

A worker works on a bounded number of ids at a time. The others that it is told to work
on wait, again up to a bound, and whatever is beyond that is dropped. An id is launched
by the call that schedules it, by the drain in such a call, or by the drain that follows
when a run settles; and none is launched once the worker is told to stop.

A call or a settlement does what it does at once, as far as the two sets are concerned:
nothing in it awaits anything before the last of its launches.
-/

/-- The ids that are being worked on and those that wait, in the order in which they
were added; and the signal to stop. -/
structure BoundedScheduler (α : Type) where
  inflight : Finset α := ∅
  pending : List α := []
  aborted : Bool := false

namespace BoundedScheduler

variable {α : Type} [DecidableEq α] (concurrency maxPending : ℕ)

/-- The loop of a drain: the ids that are being worked on after it, those that still wait,
and those that were launched, in order. -/
def drainLoop (inflight : Finset α) : List α → Finset α × List α × List α
  | [] => (inflight, [], [])
  | next :: pending =>
    if inflight.card < concurrency then
      if next ∈ inflight then drainLoop inflight pending
      else
        let (inflight', pending', launched) := drainLoop (insert next inflight) pending
        (inflight', pending', next :: launched)
    else (inflight, next :: pending, [])

variable (s : BoundedScheduler α)

/-- Whatever there is room for is launched. -/
def drain : BoundedScheduler α × List α :=
  if s.aborted then (s, [])
  else
    let (inflight, pending, launched) := drainLoop concurrency s.inflight s.pending
    ({ s with inflight, pending }, launched)

/-- What a call returns comes second, and what it launches third. -/
def schedule (id : α) : BoundedScheduler α × Bool × List α :=
  if s.aborted = true ∨ id ∈ s.inflight ∨ id ∈ s.pending then (s, false, [])
  else if s.inflight.card < concurrency ∧ s.pending = [] then
    ({ s with inflight := insert id s.inflight }, true, [id])
  else if maxPending ≤ s.pending.length then (s, false, [])
  else
    let (s', launched) := drain concurrency { s with pending := s.pending ++ [id] }
    (s', true, launched)

/-- The run of an id has settled. -/
def settle (id : α) : BoundedScheduler α × List α :=
  drain concurrency { s with inflight := s.inflight.erase id }

/-! ## What a drain does -/

/-- The waiting ids are those that were launched, and those that wait on, for want of
room. -/
structure IsDrained (inflight : Finset α) (pending : List α)
    (result : Finset α × List α × List α) : Prop where
  pending_eq : pending = result.2.2 ++ result.2.1
  inflight_eq : result.1 = inflight ∪ result.2.2.toFinset
  full : result.2.1 = [] ∨ concurrency ≤ result.1.card
  card_le : inflight.card ≤ concurrency → result.1.card ≤ concurrency

variable {concurrency}

theorem isDrained_drainLoop {inflight : Finset α} {pending : List α}
    (hdisjoint : ∀ id ∈ pending, id ∉ inflight) (hnodup : pending.Nodup) :
    IsDrained concurrency inflight pending (drainLoop concurrency inflight pending) := by
  induction pending generalizing inflight with
  | nil => exact ⟨rfl, by simp [drainLoop], .inl rfl, id⟩
  | cons next pending ih =>
    obtain ⟨hnext, hdisjoint⟩ := List.forall_mem_cons.mp hdisjoint
    obtain ⟨hnew, hnodup⟩ := List.nodup_cons.mp hnodup
    unfold drainLoop
    split
    · next hroom =>
      have hdisjoint' : ∀ id ∈ pending, id ∉ insert next inflight := by
        intro id hid hmem
        obtain rfl | hmem := Finset.mem_insert.mp hmem
        · exact hnew hid
        · exact hdisjoint id hid hmem
      obtain ⟨hpending, hinflight, hfull, hcard⟩ := ih hdisjoint' hnodup
      refine ⟨congrArg (next :: ·) hpending, ?_, hfull, fun _ => hcard ?_⟩
      · rw [hinflight, List.toFinset_cons, Finset.insert_union, Finset.union_insert]
      · rw [Finset.card_insert_of_notMem hnext]
        exact hroom
    · next hroom => exact ⟨rfl, by simp, .inr (not_lt.mp hroom), id⟩

end BoundedScheduler

/-! ## Runs -/

/-- A scheduler, with what has been done so far. -/
structure SchedulerRun (α : Type) extends BoundedScheduler α where
  /-- The runs that have not settled. -/
  running : List α := []
  /-- The ids for which a call has returned `true`, in the order of the calls. -/
  accepted : List α := []
  /-- The ids whose runs have started, in order. -/
  started : List α := []
  settled : ℕ := 0
  /-- The number of runs that had started when the signal was aborted. -/
  startedAtAbort : Option ℕ := none

namespace SchedulerRun

variable {α : Type} [DecidableEq α] (concurrency maxPending : ℕ)

/-- What happens to a scheduler. -/
inductive Action (α : Type) where
  | schedule (id : α)
  | settle (id : α)
  | abort
  deriving DecidableEq, Repr

/-- Some ids are launched. -/
def launch (s : SchedulerRun α) (scheduler : BoundedScheduler α) (launched : List α) :
    SchedulerRun α :=
  { s with
    toBoundedScheduler := scheduler
    running := s.running ++ launched
    started := s.started ++ launched }

def step (s : SchedulerRun α) : Action α → Option (SchedulerRun α)
  | .schedule id =>
    let (scheduler, returned, launched) := s.schedule concurrency maxPending id
    some { s.launch scheduler launched with
      accepted := if returned then s.accepted ++ [id] else s.accepted }
  | .settle id =>
    if id ∈ s.running then
      let (scheduler, launched) := s.toBoundedScheduler.settle concurrency id
      some ({ s with running := s.running.erase id, settled := s.settled + 1 }.launch scheduler
        launched)
    else none
  | .abort =>
    some { s with
      aborted := true
      startedAtAbort := s.startedAtAbort <|> some s.started.length }

/-- **What holds of a scheduler at any time**: its bounds; that an id waits or is worked
on, and by one run; that the runs that have started are those of the first calls that
were accepted, in order, and the others wait; that a call's turn has come, unless the
signal is aborted, when all but so many of the runs before it have settled; and that no
run starts after that. -/
structure IsOrderly (s : SchedulerRun α) : Prop where
  inflight_le : s.inflight.card ≤ concurrency
  pending_le : s.pending.length ≤ maxPending
  disjoint : ∀ id ∈ s.pending, id ∉ s.inflight
  running_nodup : s.running.Nodup
  mem_running : ∀ id, id ∈ s.running ↔ id ∈ s.inflight
  accepted_eq : s.accepted = s.started ++ s.pending
  turn : s.aborted = false →
    s.started.length = min s.accepted.length (s.settled + concurrency)
  finished : s.aborted = false → s.running = [] → s.started = s.accepted
  stopped : ∀ n ∈ s.startedAtAbort, s.started.length = n

/-- What holds before a drain. -/
structure IsBalanced (s : SchedulerRun α) : Prop where
  inflight_le : s.inflight.card ≤ concurrency
  pending_le : s.pending.length ≤ maxPending
  disjoint : ∀ id ∈ s.pending, id ∉ s.inflight
  pending_nodup : s.pending.Nodup
  running_nodup : s.running.Nodup
  mem_running : ∀ id, id ∈ s.running ↔ id ∈ s.inflight
  accepted_eq : s.accepted = s.started ++ s.pending
  started_length : s.started.length = s.settled + s.running.length
  stopped : ∀ n ∈ s.startedAtAbort, s.aborted = true ∧ s.started.length = n

/-- What holds after it: what waits does so for want of room, unless the signal is
aborted. -/
structure IsFull (s : SchedulerRun α) : Prop extends IsBalanced concurrency maxPending s where
  full : s.aborted = false → s.pending = [] ∨ concurrency ≤ s.inflight.card

variable {concurrency maxPending} {s s' : SchedulerRun α}

theorem IsBalanced.length_running (h : IsBalanced concurrency maxPending s) :
    s.running.length = s.inflight.card := by
  rw [← List.toFinset_card_of_nodup h.running_nodup]
  refine congrArg Finset.card (Finset.ext fun id => ?_)
  rw [List.mem_toFinset, h.mem_running]

/-- **A drain launches what there is room for**, each id once. -/
theorem IsBalanced.isFull_drain (h : IsBalanced concurrency maxPending s)
    {scheduler : BoundedScheduler α} {launched : List α}
    (hdrain : s.toBoundedScheduler.drain concurrency = (scheduler, launched)) :
    IsFull concurrency maxPending (s.launch scheduler launched) := by
  unfold BoundedScheduler.drain at hdrain
  split at hdrain
  · next haborted =>
    cases hdrain
    have hlaunch : s.launch s.toBoundedScheduler [] = s := by simp [launch]
    rw [hlaunch]
    exact ⟨h, fun hrunning => absurd haborted (hrunning ▸ Bool.false_ne_true)⟩
  · next haborted =>
    have hdrained : BoundedScheduler.IsDrained concurrency s.inflight s.pending _ :=
      BoundedScheduler.isDrained_drainLoop h.disjoint h.pending_nodup
    generalize BoundedScheduler.drainLoop concurrency s.inflight s.pending = result
      at hdrain hdrained
    obtain ⟨inflight, pending, launched'⟩ := result
    cases hdrain
    obtain ⟨hpending, hinflight, hfull, hcard⟩ := hdrained
    dsimp only at hpending hinflight hfull hcard
    subst hinflight
    have hnodup := hpending ▸ h.pending_nodup
    obtain ⟨hlaunched, hpending', hapart⟩ := List.nodup_append.mp hnodup
    have hfresh : ∀ id ∈ launched, id ∉ s.inflight :=
      fun id hid => h.disjoint id (hpending ▸ List.mem_append_left _ hid)
    exact {
      inflight_le := hcard h.inflight_le
      pending_le := by
        have hle := h.pending_le
        rw [hpending, List.length_append] at hle
        exact (Nat.le_add_left _ _).trans hle
      disjoint := by
        intro id hid hmem
        obtain hold | hnew := Finset.mem_union.mp hmem
        · exact h.disjoint id (hpending ▸ List.mem_append_right _ hid) hold
        · exact hapart id (List.mem_toFinset.mp hnew) id hid rfl
      pending_nodup := hpending'
      running_nodup := by
        refine List.nodup_append.mpr ⟨h.running_nodup, hlaunched, fun id hid id' hid' heq => ?_⟩
        exact hfresh id' hid' (heq ▸ (h.mem_running id).mp hid)
      mem_running := by
        intro id
        show id ∈ s.running ++ launched ↔ id ∈ s.inflight ∪ launched.toFinset
        rw [List.mem_append, Finset.mem_union, List.mem_toFinset, h.mem_running]
      accepted_eq := by
        show s.accepted = (s.started ++ launched) ++ pending
        rw [h.accepted_eq, hpending, List.append_assoc]
      started_length := by
        show (s.started ++ launched).length = s.settled + (s.running ++ launched).length
        rw [List.length_append, List.length_append, h.started_length, Nat.add_assoc]
      stopped := fun n hn => absurd (h.stopped n hn).1 haborted
      full := fun _ => hfull }

/-- What is launched by a call that finds room is what a drain would launch. -/
theorem drain_eq_of_room {scheduler : BoundedScheduler α} {id : α}
    (haborted : ¬ scheduler.aborted = true) (hid : id ∉ scheduler.inflight)
    (hroom : scheduler.inflight.card < concurrency) (hpending : scheduler.pending = []) :
    BoundedScheduler.drain concurrency { scheduler with pending := scheduler.pending ++ [id] }
      = ({ scheduler with inflight := insert id scheduler.inflight }, [id]) := by
  simp [BoundedScheduler.drain, BoundedScheduler.drainLoop, haborted, hid, hroom, hpending]

omit [DecidableEq α] in
/-- A call that is accepted. -/
theorem IsFull.isBalanced_accept (h : IsFull concurrency maxPending s) {id : α}
    (hinflight : id ∉ s.inflight) (hpending : id ∉ s.pending)
    (hlt : s.pending.length < maxPending) :
    IsBalanced concurrency maxPending
      { s with pending := s.pending ++ [id], accepted := s.accepted ++ [id] } where
  inflight_le := h.inflight_le
  pending_le := by
    show (s.pending ++ [id]).length ≤ maxPending
    rw [List.length_append]
    exact hlt
  disjoint := by
    intro id' hid'
    obtain hold | hnew := List.mem_append.mp hid'
    · exact h.disjoint id' hold
    · exact List.mem_singleton.mp hnew ▸ hinflight
  pending_nodup := by
    refine List.nodup_append.mpr ⟨h.pending_nodup, List.nodup_singleton id, fun a ha b hb heq => ?_⟩
    exact hpending (List.mem_singleton.mp hb ▸ heq ▸ ha)
  running_nodup := h.running_nodup
  mem_running := h.mem_running
  accepted_eq := by
    show s.accepted ++ [id] = s.started ++ (s.pending ++ [id])
    rw [h.accepted_eq, List.append_assoc]
  started_length := h.started_length
  stopped := h.stopped

/-- A run that settles. -/
theorem IsFull.isBalanced_settle (h : IsFull concurrency maxPending s) {id : α}
    (hid : id ∈ s.running) :
    IsBalanced concurrency maxPending
      { s with
        inflight := s.inflight.erase id
        running := s.running.erase id
        settled := s.settled + 1 } where
  inflight_le := Finset.card_erase_le.trans h.inflight_le
  pending_le := h.pending_le
  disjoint := fun id' hid' hmem => h.disjoint id' hid' (Finset.mem_of_mem_erase hmem)
  pending_nodup := h.pending_nodup
  running_nodup := h.running_nodup.erase id
  mem_running := by
    intro id'
    show id' ∈ s.running.erase id ↔ id' ∈ s.inflight.erase id
    rw [h.running_nodup.mem_erase_iff, Finset.mem_erase, h.mem_running]
  accepted_eq := h.accepted_eq
  started_length := by
    show s.started.length = s.settled + 1 + (s.running.erase id).length
    have hpos := List.length_pos_of_mem hid
    rw [List.length_erase_of_mem hid, h.started_length]
    omega
  stopped := h.stopped

/-- **Whatever happens, a scheduler stays balanced and full.** -/
theorem IsFull.step {a : Action α} (hmax : 1 ≤ maxPending) (h : IsFull concurrency maxPending s)
    (hs' : s.step concurrency maxPending a = some s') : IsFull concurrency maxPending s' := by
  have hkept : s.launch s.toBoundedScheduler [] = s := by simp [launch]
  cases a with
  | schedule id =>
    simp only [SchedulerRun.step, BoundedScheduler.schedule] at hs'
    split at hs'
    · cases hs'
      exact hkept.symm ▸ h
    · next hnew =>
      obtain ⟨haborted, hnew⟩ := not_or.mp hnew
      obtain ⟨hinflight, hpending⟩ := not_or.mp hnew
      split at hs'
      · next hroom =>
        cases hs'
        have haccept := h.isBalanced_accept hinflight hpending (hroom.2 ▸ hmax)
        exact haccept.isFull_drain (drain_eq_of_room haborted hinflight hroom.1 hroom.2)
      · split at hs'
        · cases hs'
          exact hkept.symm ▸ h
        · next hcapacity =>
          cases hs'
          exact (h.isBalanced_accept hinflight hpending (not_le.mp hcapacity)).isFull_drain rfl
  | settle id =>
    obtain ⟨hid, hs'⟩ := Option.ite_none_right_eq_some.mp hs'
    cases hs'
    exact (h.isBalanced_settle hid).isFull_drain rfl
  | abort =>
    cases hs'
    refine ⟨{ h.toIsBalanced with stopped := ?_ }, nofun⟩
    intro n hn
    refine ⟨rfl, ?_⟩
    cases hat : s.startedAtAbort with
    | none =>
      rw [hat] at hn
      exact Option.some.inj hn
    | some m =>
      rw [hat] at hn
      exact (h.stopped n (hat.trans hn)).2

omit [DecidableEq α] in
/-- A new scheduler has nothing to do. -/
theorem isFull_start : IsFull concurrency maxPending ({} : SchedulerRun α) where
  inflight_le := Nat.zero_le _
  pending_le := Nat.zero_le _
  disjoint := nofun
  pending_nodup := List.nodup_nil
  running_nodup := List.nodup_nil
  mem_running := fun id => by simp
  accepted_eq := rfl
  started_length := rfl
  stopped := nofun
  full := fun _ => .inl rfl

/-- What is balanced and full is orderly. -/
theorem IsFull.isOrderly (hpos : 1 ≤ concurrency) (h : IsFull concurrency maxPending s) :
    IsOrderly concurrency maxPending s := by
  have hturn : s.aborted = false →
      s.started.length = min s.accepted.length (s.settled + concurrency) := by
    intro haborted
    have haccepted := congrArg List.length h.accepted_eq
    have hstarted := h.started_length
    have hinflight := h.inflight_le
    rw [List.length_append] at haccepted
    rw [h.length_running] at hstarted
    obtain hnone | hfull := h.full haborted
    · rw [hnone, List.length_nil] at haccepted
      omega
    · omega
  exact {
    inflight_le := h.inflight_le
    pending_le := h.pending_le
    disjoint := h.disjoint
    running_nodup := h.running_nodup
    mem_running := h.mem_running
    accepted_eq := h.accepted_eq
    turn := hturn
    finished := by
      intro haborted hrunning
      have hempty : s.inflight.card = 0 := h.length_running ▸ congrArg List.length hrunning
      obtain hnone | hfull := h.full haborted
      · rw [h.accepted_eq, hnone, List.append_nil]
      · omega
    stopped := fun n hn => (h.stopped n hn).2 }

end SchedulerRun

open SchedulerRun

/-- **The scheduler is bounded and orderly**, whatever calls are made, in whatever order
the runs settle, and whenever the signal is aborted. -/
theorem scheduler_orderly {α : Type} [DecidableEq α] {concurrency maxPending : ℕ}
    (hpos : 1 ≤ concurrency) (hmax : 1 ≤ maxPending) (actions : List (Action α)) :
    Run.Always (step concurrency maxPending) (IsOrderly concurrency maxPending) {} actions :=
  Run.Always.of_invariant (fun _ _ _ h hs' => h.step hmax hs') (fun _ h => h.isOrderly hpos)
    isFull_start actions

/-- Three ids are scheduled with room for one, one of them twice, and two of the runs
settle. -/
def threeAtoms : List (Action String) :=
  [.schedule "atom-a", .schedule "atom-b", .schedule "atom-b", .schedule "atom-c",
    .settle "atom-a", .settle "atom-b"]

/-- They were started in order, and the last one is being worked on. -/
theorem scheduler_orderly_threeAtoms : ∃ s, Run.follow (step 1 2) {} threeAtoms = some s
    ∧ s.started = ["atom-a", "atom-b", "atom-c"] ∧ s.running = ["atom-c"]
    ∧ s.inflight.card ≤ 1 := by
  have hrun : (Run.follow (step 1 2) {} threeAtoms).map (fun s => (s.started, s.running))
      = some (["atom-a", "atom-b", "atom-c"], ["atom-c"]) := by
    decide +kernel
  obtain ⟨s, hs, heq⟩ := Option.map_eq_some_iff.mp hrun
  obtain ⟨hstarted, hrunning⟩ := Prod.mk.inj heq
  have horderly := (scheduler_orderly (by decide) (by decide) threeAtoms).of_follow hs
  exact ⟨s, hs, hstarted, hrunning, horderly.inflight_le⟩
