import IntuitionCore.Resilience.DualRetry

/-!
# The protocol of the dual write

Whatever the other workers do with the breakers, and whatever comes of the permits and of
the projection, the loop calls the projection only where both breakers let it, and records
what came of each call where it belongs. What it does not do is to record something on each
breaker that it took to half-open: the attempt may end before the projection is called, or
the projection may fail for the other database or for good. The attempts in which that
happens are described exactly.
-/

namespace BatchSteps

variable {steps : BatchSteps}

/-- **What comes of a batch.** It succeeds, or fails for good, or fails for one of the
databases. -/
theorem processParsedBatch_cases (steps : BatchSteps) :
    (steps.failure = none ∧ steps.processParsedBatch = .ok ())
    ∨ (steps.failure = some .fatal
      ∧ ∃ e, steps.processParsedBatch = .error e ∧ e.classify = .fatal)
    ∨ ∃ failure store e, steps.failure = some failure ∧ failure.store = some store
      ∧ steps.processParsedBatch = .error e ∧ e.classify = .transient
      ∧ ∀ ctx attempt b, CoreEntitiesWorker.recordDualFailure ctx attempt e b
        = CoreEntitiesWorker.penalise ctx attempt store b := by
  obtain ⟨plan, applyBatch, commit, writeKg⟩ := steps
  cases plan with
  | error field => exact .inr (.inl ⟨rfl, _, rfl, rfl⟩)
  | ok =>
    cases applyBatch with
    | error e =>
      cases e with
      | uniqueConstraintViolation message => exact .inr (.inl ⟨rfl, _, rfl, rfl⟩)
      | surreal message | sink message =>
        exact .inr (.inr ⟨.surreal, .surreal, _, rfl, rfl, rfl, rfl, fun _ _ _ => rfl⟩)
    | ok =>
      cases commit with
      | error message =>
        exact .inr (.inr ⟨.term, .pg, _, rfl, rfl, rfl, rfl, fun _ _ _ => rfl⟩)
      | ok =>
        cases writeKg with
        | error message =>
          exact .inr (.inr ⟨.kg, .pg, _, rfl, rfl, rfl, rfl, fun _ _ _ => rfl⟩)
        | ok => exact .inl ⟨rfl, rfl⟩

theorem processParsedBatch_eq_ok_iff :
    steps.processParsedBatch = .ok () ↔ steps.failure = none := by
  obtain ⟨hfailure, hok⟩ | ⟨hfailure, e, herror, -⟩
      | ⟨failure, store, e, hfailure, -, herror, -⟩ := processParsedBatch_cases steps
  · exact iff_of_true hok hfailure
  · rw [herror, hfailure]
    exact iff_of_false nofun nofun
  · rw [herror, hfailure]
    exact iff_of_false nofun nofun

end BatchSteps

/-- An event that no breaker and no projection sees. -/
def DualEvent.IsPause : DualEvent → Prop
  | .permit _ | .sleep _ | .beat => True
  | _ => False

namespace Dual

@[simp] theorem calls_append (xs ys : List DualEvent) : calls (xs ++ ys) = calls xs ++ calls ys :=
  List.filterMap_append

@[simp] theorem callsAndRecords_append (xs ys : List DualEvent) :
    callsAndRecords (xs ++ ys) = callsAndRecords xs ++ callsAndRecords ys := List.filter_append ..

theorem calls_of_isPause {events : List DualEvent} (h : ∀ e ∈ events, e.IsPause) :
    calls events = [] := by
  refine List.filterMap_eq_nil_iff.mpr fun e he => ?_
  have hpause := h e he
  cases e with
  | permit | sleep | beat => rfl
  | check | call | recordSuccess | recordFailure => exact hpause.elim

theorem callsAndRecords_of_isPause {events : List DualEvent} (h : ∀ e ∈ events, e.IsPause) :
    callsAndRecords events = [] := by
  refine List.filter_eq_nil_iff.mpr fun e he => ?_
  have hpause := h e he
  cases e with
  | permit | sleep | beat => exact Bool.false_ne_true
  | check | call | recordSuccess | recordFailure => exact hpause.elim

@[simp] theorem calls_recordsOf (failure : Option BatchFailure) :
    calls (recordsOf failure) = [] := by
  obtain _ | _ | _ | _ | _ := failure <;> rfl

@[simp] theorem callsAndRecords_recordsOf (failure : Option BatchFailure) :
    callsAndRecords (recordsOf failure) = recordsOf failure := by
  obtain _ | _ | _ | _ | _ := failure <;> rfl

/-- What is recorded on a breaker is a success, or a failure for its database. -/
theorem mem_recordsOf_iff {failure : Option BatchFailure} {store : DualStore} :
    .recordSuccess store ∈ recordsOf failure ∨ .recordFailure store ∈ recordsOf failure
      ↔ ∀ f ∈ failure, f.store = some store := by
  cases failure with
  | none =>
    refine iff_of_true (.inl ?_) nofun
    cases store <;> simp [recordsOf]
  | some failure => simp [recordsOf, eq_comm]

end Dual

namespace CoreEntitiesWorker

variable {ctx : DualContext} {attempt called delaySecs : ℕ} {b b' : Breakers}

theorem isPause_nil : ∀ e ∈ ([] : List DualEvent), e.IsPause :=
  fun _ he => absurd he List.not_mem_nil

theorem isPause_beat : ∀ e ∈ beat ctx, e.IsPause := by
  unfold beat
  split
  · exact List.forall_mem_singleton.mpr trivial
  · exact isPause_nil

theorem isPause_sleep_beat (duration : ℕ) : ∀ e ∈ .sleep duration :: beat ctx, e.IsPause :=
  List.forall_mem_cons.mpr ⟨trivial, isPause_beat⟩

variable (ctx attempt b) in
/-- The checks of an attempt. -/
def checks : List DualEvent := [(check ctx attempt b .surreal).1, (check ctx attempt b .pg).1]

theorem refusal?_eq_none_iff {answer : Except CircuitOpen Unit} :
    refusal? answer = none ↔ answer = .ok () := by
  cases answer with
  | error circuit => exact iff_of_false nofun nofun
  | ok => exact iff_of_true rfl rfl

/-- An attempt goes on from the checks exactly if both breakers let it through. -/
theorem admitted_iff :
    refusal? (answer ctx attempt b .surreal) = none ∧ refusal? (answer ctx attempt b .pg) = none
      ↔ Admitted ctx attempt b := by
  rw [refusal?_eq_none_iff, refusal?_eq_none_iff]
  exact and_congr (SharedBreaker.answer_eq_ok_iff _) (SharedBreaker.answer_eq_ok_iff _)

/-- **What the checks come to.** -/
theorem checkCircuitBreakers_cases {events : List DualEvent} {outcome : CircuitCheckOutcome}
    (h : checkCircuitBreakers ctx attempt b = (events, b', outcome)) :
    (Admitted ctx attempt b ∧ events = checks ctx attempt b ∧ outcome = .proceed)
    ∨ (¬ Admitted ctx attempt b ∧ ∃ pauses, (∀ e ∈ pauses, e.IsPause)
      ∧ events = checks ctx attempt b ++ pauses
      ∧ (outcome = .retrying ∨ ∃ msg, outcome = .exhausted msg)) := by
  have hpg : answer ctx attempt (check ctx attempt b .surreal).2 .pg = answer ctx attempt b .pg :=
    rfl
  have hcheck : (check ctx attempt (check ctx attempt b .surreal).2 .pg).1
      = (check ctx attempt b .pg).1 := rfl
  rw [← admitted_iff]
  unfold checkCircuitBreakers at h
  dsimp only at h
  rw [hpg, hcheck] at h
  split at h
  case h_1 hsurreal hpg =>
    cases h
    exact .inl ⟨⟨hsurreal, hpg⟩, rfl, rfl⟩
  case h_2 hrefused =>
    refine .inr ⟨fun hnone => hrefused hnone.1 hnone.2, ?_⟩
    split at h
    case isTrue =>
      cases h
      exact ⟨_, isPause_sleep_beat _, rfl, .inl rfl⟩
    case isFalse =>
      cases h
      exact ⟨[], isPause_nil, (List.append_nil _).symm, .inr ⟨_, rfl⟩⟩

/-- **What a call comes to.** -/
theorem classifyAndRoute_cases {steps : BatchSteps} {events : List DualEvent}
    {outcome : AttemptOutcome}
    (h : classifyAndRoute ctx attempt steps.processParsedBatch delaySecs b
      = (events, b', outcome)) :
    ∃ pauses, (∀ e ∈ pauses, e.IsPause) ∧ events = Dual.recordsOf steps.failure ++ pauses
      ∧ ((outcome = .retry ∧ steps.failure ≠ none)
        ∨ (outcome = .success ∧ steps.processParsedBatch = .ok ())
        ∨ ∃ e, outcome = .fail e ∧ steps.processParsedBatch = .error e) := by
  unfold classifyAndRoute at h
  obtain ⟨hfailure, hok⟩ | ⟨hfailure, e, herror, hclass⟩
      | ⟨failure, store, e, hfailure, hstore, herror, hclass, hrecord⟩ :=
    steps.processParsedBatch_cases
  · rw [hok] at h ⊢
    rw [hfailure]
    cases h
    exact ⟨[], isPause_nil, rfl, .inr (.inl ⟨rfl, rfl⟩)⟩
  · rw [herror] at h ⊢
    dsimp only at h
    rw [hclass] at h
    cases h
    rw [hfailure]
    exact ⟨[], isPause_nil, rfl, .inr (.inr ⟨e, rfl, rfl⟩)⟩
  · have hrecords : Dual.recordsOf steps.failure = [.recordFailure store] := by
      rw [hfailure, Dual.recordsOf, hstore]
      rfl
    rw [herror] at h ⊢
    dsimp only at h
    rw [hclass] at h
    dsimp only at h
    rw [hrecord] at h
    rw [hrecords]
    split at h
    case isTrue =>
      cases h
      exact ⟨[], isPause_nil, rfl, .inr (.inr ⟨e, rfl, rfl⟩)⟩
    case isFalse =>
      cases h
      exact ⟨_, isPause_sleep_beat _, rfl, .inl ⟨rfl, by rw [hfailure]; nofun⟩⟩

variable (ctx attempt called b) in
/-- The call of the projection that an attempt makes, if any. -/
def made : Option BatchSteps :=
  if Admitted ctx attempt b ∧ ctx.permits attempt = .ok () then some (ctx.outcomes called)
  else none

theorem made_eq_some (hadmitted : Admitted ctx attempt b) (hpermit : ctx.permits attempt = .ok ()) :
    made ctx attempt called b = some (ctx.outcomes called) := if_pos ⟨hadmitted, hpermit⟩

/-- What is done in an attempt: the checks, and the call with its records, with pauses after
either. -/
def IsAttempt (ctx : DualContext) (a : DualAttempt) : Prop :=
  ∃ pauses pauses', (∀ e ∈ pauses, e.IsPause) ∧ (∀ e ∈ pauses', e.IsPause)
    ∧ a.events = checks ctx a.number a.breakers ++ (pauses
      ++ ((made ctx a.number a.called a.breakers).toList.flatMap
            (fun steps => .call steps :: Dual.recordsOf steps.failure) ++ pauses'))

theorem isAttempt_of_made_eq_none {pauses : List DualEvent}
    (h : made ctx attempt called b = none) (hpauses : ∀ e ∈ pauses, e.IsPause) :
    IsAttempt ctx ⟨attempt, called, b, checks ctx attempt b ++ pauses⟩ := by
  refine ⟨pauses, [], hpauses, isPause_nil, ?_⟩
  dsimp only
  rw [h]
  exact congrArg _ (List.append_nil _).symm

theorem isAttempt_of_made_eq_some {pauses : List DualEvent} {steps : BatchSteps}
    (h : made ctx attempt called b = some steps) (hpauses : ∀ e ∈ pauses, e.IsPause) :
    IsAttempt ctx ⟨attempt, called, b, checks ctx attempt b
      ++ .permit (.ok ()) :: .call steps :: (Dual.recordsOf steps.failure ++ pauses)⟩ := by
  refine ⟨[.permit (.ok ())], pauses, List.forall_mem_singleton.mpr trivial, hpauses, ?_⟩
  dsimp only
  rw [h, Option.toList_some, List.flatMap_singleton]
  rfl

/-- **What an attempt does.** It checks both breakers, may call the projection, and records
what came of the call. It goes on only after a call that failed, or none. -/
theorem attemptOnce_cases {events : List DualEvent} {result : Option (Except ProjectionError Unit)}
    (h : attemptOnce ctx attempt called delaySecs b = (events, b', result)) :
    IsAttempt ctx ⟨attempt, called, b, events⟩
      ∧ ((result = none ∧ ∀ steps ∈ made ctx attempt called b, steps.failure ≠ none)
        ∨ ∃ r, result = some r
          ∧ (made ctx attempt called b = none → ∃ e, r = .error e)
          ∧ ∀ steps ∈ made ctx attempt called b, r = steps.processParsedBatch) := by
  unfold attemptOnce at h
  cases hcheck : checkCircuitBreakers ctx attempt b with
  | mk checks' rest =>
  obtain ⟨b₁, outcome⟩ := rest
  rw [hcheck] at h
  dsimp only at h
  obtain ⟨hadmitted, rfl, rfl⟩ | ⟨hrefused, pauses, hpauses, rfl, houtcome⟩ :=
    checkCircuitBreakers_cases hcheck
  · dsimp only at h
    cases hpermit : ctx.permits attempt with
    | error e =>
      have hnone : made ctx attempt called b = none := if_neg fun hgo => by
        rw [hpermit] at hgo
        cases hgo.2
      rw [hpermit] at h
      dsimp only at h
      split at h
      case isTrue =>
        cases h
        refine ⟨isAttempt_of_made_eq_none hnone (List.forall_mem_singleton.mpr trivial), ?_⟩
        rw [hnone]
        exact .inr ⟨_, rfl, fun _ => ⟨_, rfl⟩, nofun⟩
      case isFalse =>
        cases h
        refine ⟨isAttempt_of_made_eq_none hnone
          (List.forall_mem_cons.mpr ⟨trivial, isPause_sleep_beat _⟩), ?_⟩
        rw [hnone]
        exact .inl ⟨rfl, nofun⟩
    | ok =>
      have hmade : made ctx attempt called b = some (ctx.outcomes called) :=
        made_eq_some hadmitted hpermit
      rw [hpermit] at h
      dsimp only at h
      cases hroute : classifyAndRoute ctx attempt (ctx.outcomes called).processParsedBatch delaySecs
        b₁ with
      | mk routed rest =>
      obtain ⟨b₂, outcome⟩ := rest
      rw [hroute] at h
      obtain ⟨pauses, hpauses, rfl, hcases⟩ := classifyAndRoute_cases hroute
      have hattempt := isAttempt_of_made_eq_some hmade hpauses
      rw [hmade]
      obtain ⟨rfl, hfailed⟩ | ⟨rfl, hok⟩ | ⟨e, rfl, herror⟩ := hcases
      · cases h
        exact ⟨hattempt, .inl ⟨rfl, fun steps hsteps => Option.some.inj hsteps ▸ hfailed⟩⟩
      · cases h
        exact ⟨hattempt, .inr ⟨_, rfl, nofun,
          fun steps hsteps => Option.some.inj hsteps ▸ hok.symm⟩⟩
      · cases h
        exact ⟨hattempt, .inr ⟨_, rfl, nofun,
          fun steps hsteps => Option.some.inj hsteps ▸ herror.symm⟩⟩
  · have hnone : made ctx attempt called b = none := if_neg fun hgo => hrefused hgo.1
    have hattempt := isAttempt_of_made_eq_none hnone hpauses
    rw [hnone]
    obtain rfl | ⟨msg, rfl⟩ := houtcome
    · cases h
      exact ⟨hattempt, .inl ⟨rfl, nofun⟩⟩
    · cases h
      exact ⟨hattempt, .inr ⟨_, rfl, fun _ => ⟨_, rfl⟩, nofun⟩⟩

/-! ## One attempt -/

variable {a : DualAttempt}

theorem IsAttempt.calls_eq (h : IsAttempt ctx a) :
    Dual.calls a.events = (made ctx a.number a.called a.breakers).toList := by
  obtain ⟨pauses, pauses', hpauses, hpauses', hevents⟩ := h
  have hchecks : Dual.calls (checks ctx a.number a.breakers) = [] := rfl
  rw [hevents, Dual.calls_append, Dual.calls_append, Dual.calls_append, hchecks,
    Dual.calls_of_isPause hpauses, Dual.calls_of_isPause hpauses', List.append_nil]
  cases made ctx a.number a.called a.breakers with
  | none => rfl
  | some steps =>
    show Dual.calls ([.call steps] ++ Dual.recordsOf steps.failure ++ []) = [steps]
    rw [Dual.calls_append, Dual.calls_append, Dual.calls_recordsOf]
    rfl

/-- **Each call is followed by its records, and there are no others.** -/
theorem IsAttempt.recorded (h : IsAttempt ctx a) :
    Dual.callsAndRecords a.events
      = (Dual.calls a.events).flatMap fun steps => .call steps :: Dual.recordsOf steps.failure := by
  rw [h.calls_eq]
  obtain ⟨pauses, pauses', hpauses, hpauses', hevents⟩ := h
  have hchecks : Dual.callsAndRecords (checks ctx a.number a.breakers) = [] := rfl
  rw [hevents, Dual.callsAndRecords_append, Dual.callsAndRecords_append,
    Dual.callsAndRecords_append, hchecks, Dual.callsAndRecords_of_isPause hpauses,
    Dual.callsAndRecords_of_isPause hpauses', List.append_nil]
  cases made ctx a.number a.called a.breakers with
  | none => rfl
  | some steps =>
    show Dual.callsAndRecords ([.call steps] ++ Dual.recordsOf steps.failure ++ [])
      = .call steps :: Dual.recordsOf steps.failure ++ []
    rw [Dual.callsAndRecords_append, Dual.callsAndRecords_append, Dual.callsAndRecords_recordsOf]
    rfl

/-- **An attempt records on a breaker** exactly if it calls the projection, and that succeeds
or fails for the database of the breaker. -/
theorem IsAttempt.records_iff (h : IsAttempt ctx a) (store : DualStore) :
    .recordSuccess store ∈ a.events ∨ .recordFailure store ∈ a.events
      ↔ Admitted ctx a.number a.breakers ∧ ctx.permits a.number = .ok ()
        ∧ ∀ f ∈ (ctx.outcomes a.called).failure, f.store = some store := by
  have hsuccess : .recordSuccess store ∈ a.events
      ↔ .recordSuccess store ∈ Dual.callsAndRecords a.events := by
    simp [Dual.callsAndRecords]
  have hfailure : .recordFailure store ∈ a.events
      ↔ .recordFailure store ∈ Dual.callsAndRecords a.events := by
    simp [Dual.callsAndRecords]
  rw [hsuccess, hfailure, h.recorded, h.calls_eq, ← and_assoc]
  unfold made
  by_cases hgo : Admitted ctx a.number a.breakers ∧ ctx.permits a.number = .ok ()
  · rw [if_pos hgo, Option.toList_some, List.flatMap_singleton]
    simp only [List.mem_cons, reduceCtorEq, false_or]
    rw [Dual.mem_recordsOf_iff]
    exact (and_iff_right hgo).symm
  · rw [if_neg hgo]
    exact iff_of_false (by simp) fun hall => hgo hall.1

/-- The checks of an attempt are the two it begins with. -/
theorem IsAttempt.check_mem_iff (h : IsAttempt ctx a) {store : DualStore}
    {found left : CircuitState} {answer : Except CircuitOpen Unit} :
    .check store found answer left ∈ a.events
      ↔ .check store found answer left ∈ checks ctx a.number a.breakers := by
  obtain ⟨pauses, pauses', hpauses, hpauses', hevents⟩ := h
  rw [hevents, List.mem_append, List.mem_append, List.mem_append]
  refine or_iff_left ?_
  rintro (hpause | hcall | hpause)
  · exact hpauses _ hpause
  · obtain ⟨steps, -, hsteps⟩ := List.mem_flatMap.mp hcall
    rw [List.mem_cons] at hsteps
    obtain hsteps | hsteps := hsteps
    · cases hsteps
    · revert hsteps
      obtain _ | _ | _ | _ | _ := steps.failure <;> simp [Dual.recordsOf, BatchFailure.store]
  · exact hpauses' _ hpause

theorem mem_checks_iff {e : DualEvent} :
    e ∈ checks ctx attempt b ↔ ∃ store, e = (check ctx attempt b store).1 := by
  unfold checks
  rw [List.mem_pair]
  refine ⟨?_, fun ⟨store, he⟩ => ?_⟩
  · rintro (he | he)
    · exact ⟨_, he⟩
    · exact ⟨_, he⟩
  · cases store
    · exact .inl he
    · exact .inr he

/-- **An attempt takes a breaker to half-open** exactly if it finds a probe due. -/
theorem IsAttempt.moved_iff (h : IsAttempt ctx a) (store : DualStore) :
    (∃ answer, .check store .opened answer .halfOpen ∈ a.events)
      ↔ (found ctx a.number .check a.breakers store).ProbeDue (ctx.wait a.number .check store) := by
  rw [← SharedBreaker.moved_iff (ctx.cb store)]
  simp only [h.check_mem_iff, mem_checks_iff, check, callBreaker, Function.update_self,
    DualEvent.check.injEq]
  refine ⟨?_, fun ⟨hopened, hhalf⟩ => ⟨_, store, rfl, hopened.symm, rfl, hhalf.symm⟩⟩
  rintro ⟨answer, store', rfl, hopened, -, hhalf⟩
  exact ⟨hopened.symm, hhalf.symm⟩

/-- The checks of an attempt come before its call. -/
theorem IsAttempt.mem_before (h : IsAttempt ctx a) {before after : List DualEvent}
    {steps : BatchSteps} (hevents : a.events = before ++ .call steps :: after) {e : DualEvent}
    (he : e ∈ checks ctx a.number a.breakers) : e ∈ before := by
  obtain ⟨pauses, pauses', -, -, hform⟩ := h
  obtain ⟨between, rfl, -⟩ | ⟨rest, hchecks, hrest⟩ :=
    List.append_eq_append_iff.mp (hform.symm.trans hevents)
  · exact List.mem_append_left _ he
  · cases rest with
    | nil => rwa [hchecks, List.append_nil] at he
    | cons e' rest =>
      -- no check is a call
      obtain ⟨rfl, -⟩ := List.cons.inj hrest
      have hmem : .call steps ∈ checks ctx a.number a.breakers := by
        rw [hchecks]
        exact List.mem_append_right _ List.mem_cons_self
      obtain ⟨store, hcall⟩ := mem_checks_iff.mp hmem
      cases hcall

/-- **The projection is called after both breakers let it through.** -/
theorem IsAttempt.checked (h : IsAttempt ctx a) {before after : List DualEvent}
    {steps : BatchSteps} (hevents : a.events = before ++ .call steps :: after)
    (store : DualStore) : ∃ found left, .check store found (.ok ()) left ∈ before := by
  have hmade : steps ∈ (made ctx a.number a.called a.breakers).toList := by
    rw [← h.calls_eq, hevents]
    exact List.mem_filterMap.mpr ⟨.call steps, by simp, rfl⟩
  have hadmitted : Admitted ctx a.number a.breakers := by
    unfold made at hmade
    split at hmade
    case isTrue hgo => exact hgo.1
    case isFalse => exact absurd hmade List.not_mem_nil
  have hanswer : answer ctx a.number a.breakers store = .ok () := by
    refine (SharedBreaker.answer_eq_ok_iff _).mpr ?_
    cases store
    · exact hadmitted.1
    · exact hadmitted.2
  have hmem := h.mem_before hevents (mem_checks_iff.mpr ⟨store, rfl⟩)
  simp only [check, hanswer] at hmem
  exact ⟨_, _, hmem⟩

/-! ## The attempts of a run -/

/-- **Every attempt of a run is one.** -/
theorem isAttempt_of_mem_attempts {remaining : ℕ}
    (ha : a ∈ (attempts ctx remaining attempt called delaySecs b).1) : IsAttempt ctx a := by
  induction remaining generalizing attempt called delaySecs b with
  | zero => exact absurd ha List.not_mem_nil
  | succ remaining ih =>
    rw [attempts] at ha
    cases hattempt : attemptOnce ctx attempt called delaySecs b with
    | mk events rest =>
    obtain ⟨b', result⟩ := rest
    have hthis := (attemptOnce_cases hattempt).1
    rw [hattempt] at ha
    cases result with
    | some r =>
      cases List.mem_singleton.mp ha
      exact hthis
    | none =>
      obtain rfl | ha := List.mem_cons.mp ha
      · exact hthis
      · exact ih ha

variable (ctx) in
/-- **The projection is called at most once in each attempt**, and the last call is what the
loop returns. -/
theorem calls_attempts (remaining attempt called delaySecs : ℕ) (b : Breakers) :
    let run := attempts ctx remaining attempt called delaySecs b
    (run.1.flatMap fun a => Dual.calls a.events).length ≤ remaining
      ∧ (run.2 = .ok () ↔ ∃ steps,
        (run.1.flatMap fun a => Dual.calls a.events).getLast? = some steps
          ∧ steps.processParsedBatch = .ok ()) := by
  induction remaining generalizing attempt called delaySecs b with
  | zero => exact ⟨le_rfl, iff_of_false nofun fun ⟨_, h, _⟩ => nomatch h⟩
  | succ remaining ih =>
    dsimp only
    rw [attempts]
    cases hattempt : attemptOnce ctx attempt called delaySecs b with
    | mk events rest =>
    obtain ⟨b', result⟩ := rest
    obtain ⟨hthis, hresult⟩ := attemptOnce_cases hattempt
    have hcalls := hthis.calls_eq
    dsimp only at hcalls
    have hlength : (Dual.calls events).length ≤ 1 := by
      rw [hcalls]
      cases made ctx attempt called b <;> simp
    obtain ⟨rfl, hfailed⟩ | ⟨r, rfl, hnone, hsome⟩ := hresult
    · -- the loop goes on, and what came of this attempt is no success
      obtain ⟨hrest, hiff⟩ := ih (attempt + 1) (called + (Dual.calls events).length)
        (min (delaySecs * 2 % 2 ^ 64) ctx.policy.maxBackoffSecs) b'
      dsimp only
      refine ⟨?_, hiff.trans (exists_congr fun steps => and_congr_left fun hok => ?_)⟩
      · rw [List.flatMap_cons, List.length_append, Nat.add_comm remaining 1]
        exact Nat.add_le_add hlength hrest
      · rw [List.flatMap_cons, List.getLast?_append]
        refine ⟨fun hlast => by rw [hlast]; rfl, fun hlast => ?_⟩
        obtain hlast | ⟨-, hthis⟩ := Option.or_eq_some_iff.mp hlast
        · exact hlast
        · rw [hcalls] at hthis
          have hmade : steps ∈ made ctx attempt called b :=
            Option.mem_toList.mp (List.mem_of_getLast? hthis)
          exact absurd (BatchSteps.processParsedBatch_eq_ok_iff.mp hok) (hfailed steps hmade)
    · dsimp only
      rw [List.flatMap_singleton]
      refine ⟨hlength.trans (Nat.le_add_left 1 remaining), ?_⟩
      rw [hcalls]
      cases hmade : made ctx attempt called b with
      | none =>
        obtain ⟨e, rfl⟩ := hnone hmade
        exact iff_of_false nofun fun ⟨_, h, _⟩ => nomatch h
      | some steps =>
        rw [hsome steps hmade]
        refine ⟨fun hok => ⟨steps, rfl, hok⟩, fun ⟨last, hlast, hok⟩ => ?_⟩
        obtain rfl : steps = last := Option.some.inj hlast
        exact hok

end CoreEntitiesWorker

open CoreEntitiesWorker

/-- **The loop keeps the protocol, apart from the probes.** The projection is called at most
as often as there are attempts, and only after both checks of the attempt; the loop returns
a success exactly if the last call was one; each call is recorded on the breakers it
concerns and on no others. Every breaker that a check takes to half-open gets a record in
the same attempt exactly if every attempt judges the probes it takes on. -/
theorem dualRetry_records_probes_iff (ctx : DualContext) (b : Breakers) :
    DualProtocol ctx.policy.maxRetries (processWithRetry ctx b).1 (processWithRetry ctx b).2
      ∧ (ProbesRecorded (processWithRetry ctx b).1
        ↔ ∀ a ∈ (processWithRetry ctx b).1, JudgesProbes ctx a) := by
  have hattempts : ∀ a ∈ (processWithRetry ctx b).1, IsAttempt ctx a :=
    fun a ha => isAttempt_of_mem_attempts ha
  obtain ⟨hlength, hiff⟩ :=
    calls_attempts ctx ctx.policy.maxRetries 1 0 ctx.policy.baseBackoffSecs b
  refine ⟨⟨hlength, fun a ha before steps after hevents store =>
    (hattempts a ha).checked hevents store, hiff, fun a ha => (hattempts a ha).recorded⟩, ?_⟩
  refine forall₂_congr fun a ha => forall_congr' fun store => ?_
  rw [← (hattempts a ha).moved_iff store, ← (hattempts a ha).records_iff store]
  exact ⟨fun h ⟨answer, hmoved⟩ => h answer hmoved, fun h answer hmoved => h ⟨answer, hmoved⟩⟩

/-- SurrealDB has been down for a while, and PostgreSQL just went down: the probe of the one
breaker is due, that of the other is not. -/
def probeDueInOne : Breakers
  | .surreal =>
    { inUse := { inner := ⟨.opened, 5, 5_000_000_000, some 0, 1⟩, clock := 5_000_000_000 }
      openedAt_isSome := fun _ => rfl }
  | .pg =>
    { inUse := { inner := ⟨.opened, 5, 5_000_000_000, some 4_000_000_000, 1⟩
                 clock := 5_000_000_000 }
      openedAt_isSome := fun _ => rfl }

/-- A worker that is on its own, with the default breakers. It sleeps four seconds after the
first attempt. -/
def onItsOwn : DualContext where
  cb
    | .surreal => .withDefaults "surreal"
    | .pg => .withDefaults "pg"
  policy := .eventDriven
  heartbeat := true
  others _ _ _ := []
  wait
    | 2, .check, _ => 4_000_000_000
    | _, _, _ => 0
  permits _ := .ok ()
  outcomes _ := {}
  rand _ := 0
  randProbe _ _ := 0
  debugDuration _ := "4s"

/-- The first check takes the breaker of SurrealDB to half-open, and the attempt ends there. -/
theorem not_dualRetry_records_probes :
    ¬ ProbesRecorded (processWithRetry onItsOwn probeDueInOne).1 := by
  intro h
  have hrecorded := h _ List.mem_cons_self .surreal (.ok ()) List.mem_cons_self
  simp [beat] at hrecorded
