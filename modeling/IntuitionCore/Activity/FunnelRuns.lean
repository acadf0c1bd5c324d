import IntuitionCore.Activity.Funnels
import IntuitionCore.Library.Run

/-!
# Funnels over many cycles

What a single cycle records of some events is, for each account and step, the event that the
step selects. Events arrive, and cycles run in between. What they leave in the end is what a
single cycle would record of all events, exactly if no event that a cycle selected is
overtaken by one that arrives later.
-/

namespace FunnelRepo

open Rank

/-! ## What a step selects -/

namespace FunnelSteps

variable (steps : FunnelSteps) (E : FunnelEvents)

/-- **What a step selects** of the events of an account: its first event, or the one of its rank
in the window after that. -/
def selected : ℕ → String → Option EventPlace
  | 0, a => nth (places (steps.first E) a) 0
  | i + 1, a => (nth (places (steps.first E) a) 0).bind fun p =>
      steps.later[i]?.bind fun q =>
        nth ((places (q.rows E) a).filter fun p' => q.inWindow (ofLex p).1 p') q.rank

end FunnelSteps

/-- The number of the event that is selected, if it happened at a time. -/
def atTime (selected : Option EventPlace) (completedAt : ℤ) : Option ℤ :=
  selected.bind fun p => if (ofLex p).1 = completedAt then some (ofLex p).2 else none

theorem atTime_eq_some {selected : Option EventPlace} {completedAt v : ℤ} :
    atTime selected completedAt = some v ↔ selected = some (toLex (completedAt, v)) := by
  cases selected with
  | none => exact iff_of_false (Option.some_ne_none v).symm (Option.some_ne_none _).symm
  | some p =>
    show (if (ofLex p).1 = completedAt then some (ofLex p).2 else none) = some v
      ↔ some p = some (toLex (completedAt, v))
    rw [Option.ite_none_right_eq_some, Option.some.injEq, Option.some.injEq]
    exact (Prod.ext_iff (x := ofLex p) (y := (completedAt, v))).symm

/-! ## One insert -/

variable {E : FunnelEvents} {t t' : FunnelEventTable} {f : Funnel} {i : ℕ} {k : FunnelEventKey}

/-- The row of one account. -/
theorem lookup_insertOne {a : String} {selected : Option EventPlace} :
    (match selected with
      | some p => t.insertIfAbsent ⟨a, f, i, (ofLex p).1⟩ (ofLex p).2
      | none => t).lookup k
    = (t.lookup k).or (if k.funnel = f ∧ k.stepIndex = i ∧ k.accountId = a then
        atTime selected k.completedAt else none) := by
  obtain ⟨a', f', i', c⟩ := k
  cases selected with
  | none => simp [atTime]
  | some p =>
    dsimp only
    unfold Table.insertIfAbsent
    rw [Table.lookup_upsert]
    by_cases hk : f' = f ∧ i' = i ∧ a' = a
    · obtain ⟨rfl, rfl, rfl⟩ := hk
      by_cases hc : (ofLex p).1 = c
      · subst hc
        cases ht : t.lookup ⟨a', f', i', (ofLex p).1⟩ <;> simp [atTime]
      · simp [atTime, hc, Ne.symm hc]
    · rw [if_neg hk, Option.or_none]
      refine if_neg fun h => hk ?_
      obtain ⟨ha, hf, hi, -⟩ := FunnelEventKey.mk.inj h
      exact ⟨hf, hi, ha⟩

/-- The rows of some accounts. -/
theorem lookup_insertSelected_of_mem {selected : String → Option EventPlace}
    {accounts : List String} : (insertSelected f i selected accounts t).lookup k
    = (t.lookup k).or (if k.funnel = f ∧ k.stepIndex = i ∧ k.accountId ∈ accounts then
        atTime (selected k.accountId) k.completedAt else none) := by
  induction accounts generalizing t with
  | nil =>
    rw [if_neg fun h => List.not_mem_nil h.2.2, Option.or_none]
    rfl
  | cons a accounts ih =>
    have hcons : insertSelected f i selected (a :: accounts) t
        = insertSelected f i selected accounts (match selected a with
          | some p => t.insertIfAbsent ⟨a, f, i, (ofLex p).1⟩ (ofLex p).2
          | none => t) := rfl
    rw [hcons, ih, lookup_insertOne, Option.or_assoc]
    congr 1
    by_cases ha : k.accountId = a
    · subst ha
      by_cases hmem : k.accountId ∈ accounts
      · simp [hmem]
      · simp [hmem]
    · simp [ha]

/-- **An insert adds what is selected where there is no row.** -/
theorem lookup_insertSelected {selected : String → Option EventPlace} {accounts : List String}
    (haccounts : ∀ a, selected a ≠ none → a ∈ accounts) :
    (insertSelected f i selected accounts t).lookup k = (t.lookup k).or
      (if k.funnel = f ∧ k.stepIndex = i then atTime (selected k.accountId) k.completedAt
        else none) := by
  rw [lookup_insertSelected_of_mem]
  congr 1
  by_cases hmem : k.accountId ∈ accounts
  · simp [hmem]
  · have hnone : selected k.accountId = none := by
      by_contra h
      exact hmem (haccounts _ h)
    simp [hmem, hnone, atTime]

/-- There is nothing to select for an account without events. -/
theorem places_eq_nil {rows : List AccountEvent} {a : String}
    (h : a ∉ rows.map AccountEvent.accountId) : places rows a = [] :=
  List.filterMap_eq_nil_iff.mpr fun r hr => if_neg fun hra => h (List.mem_map.mpr ⟨r, hr, hra⟩)

/-- **The insert of the first step.** -/
theorem lookup_insertFirst {steps : FunnelSteps} : (insertFirst E steps t).lookup k
    = (t.lookup k).or (if k.funnel = steps.funnel ∧ k.stepIndex = 0 then
        atTime (steps.selected E 0 k.accountId) k.completedAt else none) := by
  refine lookup_insertSelected fun a ha => ?_
  by_contra hmem
  exact ha (by rw [places_eq_nil hmem, nth_nil])

/-- **The insert of a later step.** -/
theorem lookup_insertLater {q : LaterStep} : (insertLater E f i q t).lookup k
    = (t.lookup k).or (if k.funnel = f ∧ k.stepIndex = i then
        atTime (nth (q.joined E (completedFirst t f k.accountId) k.accountId) q.rank)
          k.completedAt else none) := by
  refine lookup_insertSelected fun a ha => ?_
  by_contra hmem
  refine ha ?_
  rw [LaterStep.joined, places_eq_nil hmem, List.flatMap_nil, nth_nil]

theorem mem_completedFirst {a : String} {c : ℤ} :
    c ∈ completedFirst t f a ↔ ∃ v, t.lookup ⟨a, f, 0, c⟩ = some v := by
  unfold completedFirst
  rw [Finset.mem_image]
  constructor
  · rintro ⟨⟨a', f', i', c'⟩, hk, rfl⟩
    obtain ⟨hmem, rfl, rfl, rfl⟩ := Finset.mem_filter.mp hk
    exact Finmap.mem_iff.mp (Finmap.mem_keys.mp hmem)
  · rintro hv
    exact ⟨⟨a, f, 0, c⟩,
      Finset.mem_filter.mpr ⟨Finmap.mem_keys.mpr (Finmap.mem_iff.mpr hv), rfl, rfl, rfl⟩, rfl⟩

/-- When the first step was completed is read off its rows. -/
theorem completedFirst_congr {a : String}
    (h : ∀ c, t.lookup ⟨a, f, 0, c⟩ = t'.lookup ⟨a, f, 0, c⟩) :
    completedFirst t f a = completedFirst t' f a := by
  ext c
  rw [mem_completedFirst, mem_completedFirst, h]

/-- If there is one row for the first step, or none. -/
theorem completedFirst_eq {a : String} {selected : Option EventPlace}
    (h : ∀ c, t.lookup ⟨a, f, 0, c⟩ = atTime selected c) :
    completedFirst t f a = selected.elim ∅ fun p => {(ofLex p).1} := by
  ext c
  rw [mem_completedFirst, h]
  cases selected with
  | none => simp [atTime]
  | some p =>
    rw [Option.elim_some, Finset.mem_singleton]
    constructor
    · rintro ⟨v, hv⟩
      rw [Option.some.inj (atTime_eq_some.mp hv)]
      rfl
    · rintro rfl
      exact ⟨(ofLex p).2, atTime_eq_some.mpr rfl⟩

/-! ## One cycle -/

/-- Inserts of later steps leave the other rows alone. -/
theorem lookup_insertAllLater_of_lt {later : List LaterStep}
    (hk : k.funnel = f → k.stepIndex < i) :
    (insertAllLater E f i later t).lookup k = t.lookup k := by
  induction later generalizing i t with
  | nil => rfl
  | cons q later ih =>
    refine (ih fun hf => (hk hf).trans (Nat.lt_succ_self i)).trans ?_
    rw [lookup_insertLater, if_neg fun h => (hk h.1).ne h.2, Option.or_none]

/-- **The inserts of the later steps.** The induction is on the steps; none of them changes the
rows for the first step, which all of them read. -/
theorem lookup_insertAllLater {later : List LaterStep} {n : ℕ} {a : String} {c : ℤ} (hi : 0 < i) :
    (insertAllLater E f i later t).lookup ⟨a, f, i + n, c⟩
      = (t.lookup ⟨a, f, i + n, c⟩).or (atTime (later[n]?.bind fun q =>
          nth (q.joined E (completedFirst t f a) a) q.rank) c) := by
  induction later generalizing i n t with
  | nil => exact (Option.or_none).symm
  | cons q later ih =>
    have hfirst : completedFirst (insertLater E f i q t) f a = completedFirst t f a :=
      completedFirst_congr fun c => by
        rw [lookup_insertLater, if_neg fun h => hi.ne h.2, Option.or_none]
    cases n with
    | zero =>
      show (insertAllLater E f (i + 1) later (insertLater E f i q t)).lookup ⟨a, f, i, c⟩ = _
      rw [lookup_insertAllLater_of_lt fun _ => Nat.lt_succ_self i, lookup_insertLater,
        if_pos ⟨rfl, rfl⟩]
      rfl
    | succ n =>
      have hstep : i + (n + 1) = i + 1 + n := by omega
      have hother : (insertLater E f i q t).lookup ⟨a, f, i + 1 + n, c⟩
          = t.lookup ⟨a, f, i + 1 + n, c⟩ := by
        rw [lookup_insertLater, if_neg fun h => by have := h.2; dsimp only at this; omega,
          Option.or_none]
      rw [hstep]
      refine (ih (Nat.succ_pos i)).trans ?_
      rw [hfirst, hother]
      rfl

theorem joined_empty (q : LaterStep) {a : String} : q.joined E ∅ a = [] := by
  unfold LaterStep.joined
  simp

/-- The join with one row leaves the events in its window. -/
theorem joined_singleton (q : LaterStep) {a : String} {c : ℤ} :
    q.joined E {c} a = (places (q.rows E) a).filter fun p => q.inWindow c p := by
  unfold LaterStep.joined
  induction places (q.rows E) a with
  | nil => rfl
  | cons p ps ih =>
    rw [List.flatMap_cons, ih, Finset.filter_singleton, List.filter_cons]
    split <;> rfl

/-- **What a later step selects** is read off the join with the one row for the first step. -/
theorem selected_succ {steps : FunnelSteps} {n : ℕ} {a : String} :
    steps.selected E (n + 1) a = steps.later[n]?.bind fun q =>
      nth (q.joined E ((steps.selected E 0 a).elim ∅ fun p => {(ofLex p).1}) a) q.rank := by
  show (steps.selected E 0 a).bind _ = _
  cases steps.selected E 0 a with
  | none =>
    cases steps.later[n]? with
    | none => rfl
    | some q => exact (congrArg (nth · q.rank) (joined_empty q)).symm
  | some p =>
    show (steps.later[n]?.bind _) = _
    refine Option.bind_congr fun q _ => ?_
    exact (congrArg (nth · q.rank) (joined_singleton q)).symm

/-- The rows for the first step of a funnel are those that the step selects. -/
def FirstRows (steps : FunnelSteps) (E : FunnelEvents) (t : FunnelEventTable) : Prop :=
  ∀ a c v, t.lookup ⟨a, steps.funnel, 0, c⟩ = some v →
    atTime (steps.selected E 0 a) c = some v

/-- **A funnel adds what its steps select**, if the rows for the first step that are there are
those that it selects. -/
theorem lookup_computeFunnel {steps : FunnelSteps} (h : FirstRows steps E t) :
    (computeFunnel E steps t).lookup k
      = (t.lookup k).or (if k.funnel = steps.funnel then
          atTime (steps.selected E k.stepIndex k.accountId) k.completedAt else none) := by
  obtain ⟨a, f, i, c⟩ := k
  unfold computeFunnel
  by_cases hf : f = steps.funnel
  · subst hf
    rw [if_pos rfl]
    cases i with
    | zero =>
      rw [lookup_insertAllLater_of_lt fun _ => Nat.one_pos, lookup_insertFirst,
        if_pos ⟨rfl, rfl⟩]
    | succ i =>
      have hfirst : completedFirst (insertFirst E steps t) steps.funnel a
          = (steps.selected E 0 a).elim ∅ fun p => {(ofLex p).1} := by
        refine completedFirst_eq fun c => ?_
        rw [lookup_insertFirst, if_pos ⟨rfl, rfl⟩]
        cases ht : t.lookup ⟨a, steps.funnel, 0, c⟩ with
        | none => rfl
        | some v => exact (h a c v ht).symm
      rw [show i + 1 = 1 + i from Nat.add_comm i 1, lookup_insertAllLater Nat.one_pos, hfirst,
        lookup_insertFirst, if_neg fun h => by have := h.2; dsimp only at this; omega,
        Option.or_none]
      rw [Nat.add_comm 1 i, selected_succ]
  · rw [lookup_insertAllLater_of_lt fun h => absurd h hf, lookup_insertFirst,
      if_neg fun h => hf h.1, if_neg hf]

/-- The steps of each funnel. -/
def stepsOf : Funnel → FunnelSteps
  | .onboarding => onboarding
  | .activation => activation
  | .creator => creator
  | .crossFeature => crossFeature

theorem funnel_stepsOf (f : Funnel) : (stepsOf f).funnel = f := by
  cases f <;> rfl

/-- **What is selected for a row**: the number of the event, if the step selects one and that
happened then. -/
def result (E : FunnelEvents) (k : FunnelEventKey) : Option ℤ :=
  atTime ((stepsOf k.funnel).selected E k.stepIndex k.accountId) k.completedAt

/-- The rows for first steps are what they select. -/
def FirstSelected (E : FunnelEvents) (t : FunnelEventTable) : Prop :=
  ∀ k v, k.stepIndex = 0 → t.lookup k = some v → result E k = some v

/-- One funnel of a cycle. -/
theorem lookup_computeFunnel_stepsOf (g : Funnel) (h : FirstSelected E t) (k : FunnelEventKey) :
    (computeFunnel E (stepsOf g) t).lookup k
      = (t.lookup k).or (if k.funnel = g then result E k else none) := by
  have hrows : FirstRows (stepsOf g) E t := fun a c v hv => by
    rw [funnel_stepsOf] at hv
    exact h _ v rfl hv
  rw [lookup_computeFunnel hrows, funnel_stepsOf]
  congr 1
  split
  · next hk => rw [← hk, result]
  · rfl

theorem FirstSelected.computeFunnel (g : Funnel) (h : FirstSelected E t) :
    FirstSelected E (computeFunnel E (stepsOf g) t) := by
  intro k v hk hv
  rw [lookup_computeFunnel_stepsOf g h, Option.or_eq_some_iff] at hv
  obtain hold | ⟨-, hnew⟩ := hv
  · exact h k v hk hold
  · exact (Option.ite_none_right_eq_some.mp hnew).2

/-- **A cycle adds what is selected**, if the rows for first steps that are there are what they
select. -/
theorem lookup_runCycle (h : FirstSelected E t) (k : FunnelEventKey) :
    (FunnelTrackerProjection.runCycle E t).lookup k = (t.lookup k).or (result E k) := by
  have h₁ := h.computeFunnel .onboarding
  have h₂ := h₁.computeFunnel .activation
  have h₃ := h₂.computeFunnel .creator
  show (computeFunnel E (stepsOf .crossFeature) (computeFunnel E (stepsOf .creator)
    (computeFunnel E (stepsOf .activation)
      (computeFunnel E (stepsOf .onboarding) t)))).lookup k = _
  rw [lookup_computeFunnel_stepsOf _ h₃, lookup_computeFunnel_stepsOf _ h₂,
    lookup_computeFunnel_stepsOf _ h₁, lookup_computeFunnel_stepsOf _ h]
  cases k.funnel <;> simp

/-- **What a single cycle records.** -/
theorem lookup_singleCycle (E : FunnelEvents) (k : FunnelEventKey) :
    (FunnelTrackerProjection.runCycle E ∅).lookup k = result E k := by
  rw [lookup_runCycle fun k v _ hv => absurd hv (by simp), Finmap.lookup_empty]
  exact Option.none_or

/-- It records one row for each account, funnel and step. -/
theorem completedAt_singleCycle {E : FunnelEvents} {k k' : FunnelEventKey}
    (hk : k ∈ FunnelTrackerProjection.runCycle E ∅)
    (hk' : k' ∈ FunnelTrackerProjection.runCycle E ∅) (ha : k.accountId = k'.accountId)
    (hf : k.funnel = k'.funnel) (hi : k.stepIndex = k'.stepIndex) : k = k' := by
  obtain ⟨v, hv⟩ := Finmap.mem_iff.mp hk
  obtain ⟨v', hv'⟩ := Finmap.mem_iff.mp hk'
  rw [lookup_singleCycle, result, atTime_eq_some] at hv hv'
  rw [ha, hf, hi, hv'] at hv
  have hplace := toLex_inj.mp (Option.some.inj hv)
  obtain ⟨a, f, i, c⟩ := k
  obtain rfl : a = k'.accountId := ha
  obtain rfl : f = k'.funnel := hf
  obtain rfl : i = k'.stepIndex := hi
  obtain rfl : k'.completedAt = c := (Prod.mk.inj hplace).1
  rfl

/-! ## More events -/

variable {E₁ E₂ E₃ : FunnelEvents} {steps : FunnelSteps}

theorem places_mono {rows rows' : List AccountEvent} (h : rows.Sublist rows') (a : String) :
    (places rows a).Sublist (places rows' a) :=
  h.filterMap _

/-- **What is selected before and after is selected in between.** -/
theorem selected_between (h₁₂ : E₁.Within E₂) (h₂₃ : E₂.Within E₃) {a : String}
    (hstable : ∀ i p, steps.selected E₁ i a = some p → steps.selected E₃ i a = some p)
    {i : ℕ} {p : EventPlace} (hp : steps.selected E₁ i a = some p) :
    steps.selected E₂ i a = some p := by
  have hfirst : ∀ p, nth (places (steps.first E₁) a) 0 = some p →
      nth (places (steps.first E₂) a) 0 = some p := fun p hp =>
    nth_eq_of_subperm (places_mono (steps.first_mono h₁₂) a).subperm
      (places_mono (steps.first_mono h₂₃) a).subperm hp (hstable 0 p hp)
  cases i with
  | zero => exact hfirst p hp
  | succ i =>
    have hp₃ := hstable (i + 1) p hp
    obtain ⟨c, hc, hq⟩ := Option.bind_eq_some_iff.mp hp
    obtain ⟨q, hlater, hnth⟩ := Option.bind_eq_some_iff.mp hq
    obtain ⟨c₃, hc₃, hq₃⟩ := Option.bind_eq_some_iff.mp hp₃
    obtain ⟨q₃, hlater₃, hnth₃⟩ := Option.bind_eq_some_iff.mp hq₃
    obtain rfl : q = q₃ := Option.some.inj (hlater.symm.trans hlater₃)
    obtain rfl : c = c₃ := Option.some.inj ((hstable 0 c hc).symm.trans hc₃)
    refine Option.bind_eq_some_iff.mpr ⟨c, hfirst c hc,
      Option.bind_eq_some_iff.mpr ⟨q, hlater, ?_⟩⟩
    exact nth_eq_of_subperm ((places_mono (q.rows_mono h₁₂) a).filter _).subperm
      ((places_mono (q.rows_mono h₂₃) a).filter _).subperm hnth hnth₃

/-- **Nothing that is selected is overtaken**: what a step selects of some events it selects of
more of them. -/
def Stable (E E' : FunnelEvents) : Prop :=
  ∀ f i a p, (stepsOf f).selected E i a = some p → (stepsOf f).selected E' i a = some p

theorem Stable.between (h₁₂ : E₁.Within E₂) (h₂₃ : E₂.Within E₃) (h : Stable E₁ E₃) :
    Stable E₁ E₂ := fun f _ a _ hp => selected_between h₁₂ h₂₃ (fun i p => h f i a p) hp

/-- What is recorded of the one is recorded of the other. -/
theorem stable_iff : Stable E₁ E₂ ↔ ∀ k v, result E₁ k = some v → result E₂ k = some v := by
  constructor
  · intro h k v hv
    exact atTime_eq_some.mpr (h _ _ _ _ (atTime_eq_some.mp hv))
  · intro h f i a p hp
    exact atTime_eq_some.mp (h ⟨a, f, i, (ofLex p).1⟩ (ofLex p).2 (atTime_eq_some.mpr hp))

/-- **A cycle after another one records what it would have recorded alone**, if nothing was
overtaken. -/
theorem runCycle_singleCycle (h : Stable E₁ E₂) :
    FunnelTrackerProjection.runCycle E₂ (FunnelTrackerProjection.runCycle E₁ ∅)
      = FunnelTrackerProjection.runCycle E₂ ∅ := by
  have hrows := stable_iff.mp h
  refine Finmap.ext_lookup fun k => ?_
  have hfirst : FirstSelected E₂ (FunnelTrackerProjection.runCycle E₁ ∅) := fun k v _ hv => by
    rw [lookup_singleCycle] at hv
    exact hrows k v hv
  rw [lookup_runCycle hfirst, lookup_singleCycle, lookup_singleCycle]
  cases hv : result E₁ k with
  | none => exact Option.none_or
  | some v => exact (hrows k v hv).symm

/-- A funnel neither changes nor deletes a row. -/
theorem lookup_computeFunnel_of_some {v : ℤ} (h : t.lookup k = some v) :
    (computeFunnel E steps t).lookup k = some v := by
  have hlater : ∀ (later : List LaterStep) (i : ℕ) (t : FunnelEventTable), t.lookup k = some v →
      (insertAllLater E steps.funnel i later t).lookup k = some v := by
    intro later
    induction later with
    | nil => exact fun _ _ h => h
    | cons q later ih =>
      intro i t h
      refine ih (i + 1) _ ?_
      rw [lookup_insertLater, h, Option.some_or]
  refine hlater _ 1 _ ?_
  rw [lookup_insertFirst, h, Option.some_or]

/-- Nor does a cycle. -/
theorem lookup_runCycle_of_some {v : ℤ} (h : t.lookup k = some v) :
    (FunnelTrackerProjection.runCycle E t).lookup k = some v :=
  lookup_computeFunnel_of_some (lookup_computeFunnel_of_some (lookup_computeFunnel_of_some
    (lookup_computeFunnel_of_some h)))

/-! ## Runs -/

end FunnelRepo

/-- What happens to the tables. -/
inductive FunnelAction where
  | atomCreated (row : AtomCreatedRow)
  | tripleCreated (row : TripleCreatedRow)
  | deposited (row : DepositedRow)
  | cycle

/-- The event tables and `funnel_event`. -/
structure FunnelDb where
  events : FunnelEvents := {}
  funnelEvent : FunnelEventTable := ∅

namespace FunnelDb

/-- A row arrives, or a cycle runs. -/
def step (db : FunnelDb) : FunnelAction → FunnelDb
  | .atomCreated row =>
    { db with events.atomCreated := db.events.atomCreated ++ [row] }
  | .tripleCreated row =>
    { db with events.tripleCreated := db.events.tripleCreated ++ [row] }
  | .deposited row =>
    { db with events.deposited := db.events.deposited ++ [row] }
  | .cycle =>
    { db with funnelEvent := FunnelTrackerProjection.runCycle db.events db.funnelEvent }

def runFrom (db : FunnelDb) (actions : List FunnelAction) : FunnelDb := actions.foldl step db

def run (actions : List FunnelAction) : FunnelDb := runFrom {} actions

/-- **What is recorded depends on the events only**: it is what a single cycle records of all of
them, and so one row for each account, funnel and step. -/
structure IndependentOfCycles (db : FunnelDb) : Prop where
  single : db.funnelEvent = FunnelTrackerProjection.runCycle db.events ∅
  oneRow : ∀ k ∈ db.funnelEvent, ∀ k' ∈ db.funnelEvent, k.accountId = k'.accountId →
    k.funnel = k'.funnel → k.stepIndex = k'.stepIndex → k = k'

open FunnelRepo Run

variable {db : FunnelDb} {E : FunnelEvents} {k : FunnelEventKey} {v : ℤ}

theorem independentOfCycles_iff : db.IndependentOfCycles
    ↔ db.funnelEvent = FunnelTrackerProjection.runCycle db.events ∅ := by
  refine ⟨IndependentOfCycles.single, fun h => ⟨h, fun k hk k' hk' ha hf hi => ?_⟩⟩
  rw [h] at hk hk'
  exact completedAt_singleCycle hk hk' ha hf hi

/-- No row of an event table is lost. -/
theorem within_step (db : FunnelDb) (a : FunnelAction) : db.events.Within (db.step a).events := by
  cases a with
  | atomCreated row =>
    exact ⟨List.sublist_append_left _ _, List.Sublist.refl _, List.Sublist.refl _⟩
  | tripleCreated row =>
    exact ⟨List.Sublist.refl _, List.sublist_append_left _ _, List.Sublist.refl _⟩
  | deposited row =>
    exact ⟨List.Sublist.refl _, List.Sublist.refl _, List.sublist_append_left _ _⟩
  | cycle => exact .refl _

theorem within_runFrom (db : FunnelDb) (actions : List FunnelAction) :
    db.events.Within (runFrom db actions).events := by
  induction actions generalizing db with
  | nil => exact .refl _
  | cons a actions ih => exact (within_step db a).trans (ih (db.step a))

/-- No row of `funnel_event` is. -/
theorem lookup_runFrom (h : db.funnelEvent.lookup k = some v) (actions : List FunnelAction) :
    (runFrom db actions).funnelEvent.lookup k = some v := by
  induction actions generalizing db with
  | nil => exact h
  | cons a actions ih =>
    refine ih ?_
    cases a with
    | atomCreated row | tripleCreated row | deposited row => exact h
    | cycle => exact lookup_runCycle_of_some h

/-- **The table is what a single cycle recorded** of some of the events, and nothing of that is
overtaken by events that are still to come. -/
def Settled (E : FunnelEvents) (db : FunnelDb) : Prop :=
  ∃ E₀ : FunnelEvents, E₀.Within db.events ∧ Stable E₀ E
    ∧ db.funnelEvent = FunnelTrackerProjection.runCycle E₀ ∅

/-- What a cycle leaves. -/
theorem Settled.runCycle (h : Settled E db) (hE : db.events.Within E) :
    (db.step .cycle).funnelEvent = FunnelTrackerProjection.runCycle db.events ∅ := by
  obtain ⟨E₀, hE₀, hstable, htable⟩ := h
  show FunnelTrackerProjection.runCycle db.events db.funnelEvent = _
  rw [htable]
  exact runCycle_singleCycle (hstable.between hE₀ hE)

/-- **What is recorded in the end depends on the events only, exactly if nothing is overtaken.**
The induction is on the run; up to a cycle that is overtaken, the table is what the last cycle
would have recorded alone. -/
theorem single_iff_of_settled (actions : List FunnelAction) (hE : (runFrom db actions).events = E)
    (hsettled : Settled E db) :
    (runFrom db (actions ++ [.cycle])).funnelEvent = FunnelTrackerProjection.runCycle E ∅
      ↔ EachStep (fun db a => some (db.step a)) (fun db a => a = .cycle → Stable db.events E) db
        actions := by
  induction actions generalizing db with
  | nil =>
    subst hE
    exact iff_of_true (hsettled.runCycle (within_runFrom db [])) trivial
  | cons a actions ih =>
    by_cases ha : a = .cycle
    · subst ha
      have hcycle := hsettled.runCycle (hE ▸ within_runFrom db (.cycle :: actions))
      have hiff := fun hstable : Stable db.events E =>
        @ih (db.step .cycle) hE ⟨db.events, .refl _, hstable, hcycle⟩
      constructor
      · rintro h s' ⟨rfl⟩
        -- what this cycle recorded is still there in the end
        have hstable : Stable db.events E := stable_iff.mpr fun k v hv => by
          have hrow : (db.step .cycle).funnelEvent.lookup k = some v := by
            rw [hcycle, lookup_singleCycle, hv]
          rw [← lookup_singleCycle, ← h]
          exact lookup_runFrom hrow (actions ++ [.cycle])
        exact ⟨fun _ => hstable, (hiff hstable).mp h⟩
      · intro h
        obtain ⟨hsafe, hrest⟩ := h _ rfl
        exact (hiff (hsafe rfl)).mpr hrest
    · have hsettled' : Settled E (db.step a) := by
        obtain ⟨E₀, hE₀, hstable, htable⟩ := hsettled
        refine ⟨E₀, hE₀.trans (within_step db a), hstable, ?_⟩
        cases a with
        | atomCreated row | tripleCreated row | deposited row => exact htable
        | cycle => exact absurd rfl ha
      have hiff := @ih (db.step a) hE hsettled'
      constructor
      · rintro h s' ⟨rfl⟩
        exact ⟨fun hcycle => absurd hcycle ha, hiff.mp h⟩
      · intro h
        exact hiff.mpr (h _ rfl).2

/-- Nothing is selected without events. -/
theorem selected_empty (f : Funnel) (i : ℕ) (a : String) :
    (stepsOf f).selected {} i a = none := by
  have hfirst : (stepsOf f).selected {} 0 a = none := by
    cases f <;> rfl
  cases i with
  | zero => exact hfirst
  | succ i =>
    show ((stepsOf f).selected {} 0 a).bind _ = none
    rw [hfirst, Option.bind_none]

/-- A cycle without events leaves nothing. -/
theorem settled_new (E : FunnelEvents) : Settled E {} := by
  refine ⟨{}, .refl _, fun f i a p hp => ?_, Finmap.ext_lookup fun k => ?_⟩
  · exact absurd ((selected_empty f i a).symm.trans hp) (Option.some_ne_none p).symm
  · rw [lookup_singleCycle, result, selected_empty]
    rfl

/-- **What cycles leave depends on the events only, exactly if no cycle is overtaken**: what a
step selected of the events of an account stays what it selects as more events arrive. -/
theorem independent_of_cycles_iff (actions : List FunnelAction) :
    IndependentOfCycles (run (actions ++ [.cycle]))
      ↔ EachStep (fun (db : FunnelDb) a => some (db.step a))
          (fun db a => a = .cycle → Stable db.events (run actions).events) {} actions := by
  have hevents : (run (actions ++ [.cycle])).events = (run actions).events := by
    unfold run runFrom
    rw [List.foldl_append]
    rfl
  rw [independentOfCycles_iff, hevents]
  exact single_iff_of_settled actions rfl (settled_new _)

section Overtaken

/-- An account's second atom arrives first, and a cycle runs before its first one does. -/
def overtaken : List FunnelAction :=
  [.atomCreated ⟨"a", 2, 200, some 2⟩, .cycle, .atomCreated ⟨"a", 1, 100, some 1⟩]

/-- Both atoms are then recorded as the first one. -/
theorem overtaken_not_independent : ¬ IndependentOfCycles (run (overtaken ++ [.cycle])) := by
  intro h
  have h₁ : (run (overtaken ++ [.cycle])).funnelEvent.lookup ⟨"a", .onboarding, 0, 100⟩
      = some 1 := by
    decide +kernel
  have h₂ : (run (overtaken ++ [.cycle])).funnelEvent.lookup ⟨"a", .onboarding, 0, 200⟩
      = some 2 := by
    decide +kernel
  have heq := h.oneRow _ (Finmap.mem_iff.mpr ⟨_, h₁⟩) _ (Finmap.mem_iff.mpr ⟨_, h₂⟩) rfl rfl rfl
  exact absurd heq (by decide)

end Overtaken

end FunnelDb
