import Mathlib.Logic.Relation
import Mathlib.Order.Basic

/-!
# Runs of a step relation

A run is a path of a step relation, that is, a pair related by its reflexive
transitive closure. Two rules carry every argument about such runs: what a step
preserves, a run preserves; and a measure that no step lowers, no run lowers.

Where a step is a function of an action, a run is a list of actions, a
schedule. A property that is lost at exactly the steps that are not safe holds
in every state of a schedule if and only if each of its steps is safe.
-/

namespace Run

open Relation

variable {σ β : Type} {r : σ → σ → Prop} {a b : σ}

/-- **What a step preserves, a run preserves.** -/
theorem invariant {P : σ → Prop} (hstep : ∀ x y, P x → r x y → P y)
    (h : ReflTransGen r a b) (ha : P a) : P b := by
  induction h with
  | refl => exact ha
  | tail _ hxy ih => exact hstep _ _ ih hxy

/-- **A measure that no step lowers, no run lowers.** -/
theorem monotone [Preorder β] (f : σ → β) (hstep : ∀ x y, r x y → f x ≤ f y)
    (h : ReflTransGen r a b) : f a ≤ f b :=
  invariant (P := fun x => f a ≤ f x)
    (fun _ _ hx hxy => hx.trans (hstep _ _ hxy)) h le_rfl

/-! ## Schedules -/

section Schedule

variable {α : Type} (step : σ → α → Option σ)

/-- The state a schedule leads to, if each of its actions is possible. -/
def follow (s : σ) (as : List α) : Option σ := as.foldlM step s

/-- A property holds in every state a schedule passes through. It stops at an
action that is not possible. -/
def Always (P : σ → Prop) : σ → List α → Prop
  | s, [] => P s
  | s, a :: as => P s ∧ ∀ s', step s a = some s' → Always P s' as

/-- Every step that a schedule takes is safe. -/
def EachStep (safe : σ → α → Prop) : σ → List α → Prop
  | _, [] => True
  | s, a :: as => ∀ s', step s a = some s' → safe s a ∧ EachStep safe s' as

variable {step}

theorem follow_append (s : σ) (as bs : List α) :
    follow step s (as ++ bs) = (follow step s as).bind fun s' => follow step s' bs :=
  List.foldlM_append

/-- A property that always holds holds at the start. -/
theorem Always.head {P : σ → Prop} {s : σ} {as : List α} (h : Always step P s as) : P s := by
  cases as with
  | nil => exact h
  | cons a as => exact h.1

/-- A property that always holds holds where a schedule leads. -/
theorem Always.of_follow {P : σ → Prop} {s s' : σ} {as : List α} (h : Always step P s as)
    (hs' : follow step s as = some s') : P s' := by
  induction as generalizing s with
  | nil =>
    cases hs'
    exact h
  | cons a as ih =>
    obtain ⟨s₁, hs₁, hfollow⟩ := Option.bind_eq_some_iff.mp hs'
    exact ih (h.2 s₁ hs₁) hfollow

/-- **What follows from an invariant always holds.** -/
theorem Always.of_invariant {I P : σ → Prop} (hI : ∀ s a s', I s → step s a = some s' → I s')
    (hP : ∀ s, I s → P s) {s : σ} (hs : I s) (as : List α) : Always step P s as := by
  induction as generalizing s with
  | nil => exact hP s hs
  | cons a as ih => exact ⟨hP s hs, fun s' hs' => ih (hI s a s' hs hs')⟩

/-- **What every step preserves, a schedule preserves.** -/
theorem invariant_of_follow {I : σ → Prop} (hI : ∀ s a s', I s → step s a = some s' → I s')
    {s s' : σ} {as : List α} (hs' : follow step s as = some s') (hs : I s) : I s' :=
  (Always.of_invariant hI (fun _ hs => hs) hs as).of_follow hs'

/-- A schedule of actions that are safe wherever they are taken. -/
theorem EachStep.of_forall {Q : α → Prop} {s : σ} {as : List α} (h : ∀ a ∈ as, Q a) :
    EachStep step (fun _ => Q) s as := by
  induction as generalizing s with
  | nil => trivial
  | cons a as ih =>
    obtain ⟨ha, has⟩ := List.forall_mem_cons.mp h
    exact fun _ _ => ⟨ha, ih has⟩

/-- The steps of two schedules, one after the other. -/
theorem EachStep.append {safe : σ → α → Prop} {s : σ} {as bs : List α}
    (h : EachStep step safe s as)
    (h' : ∀ s', follow step s as = some s' → EachStep step safe s' bs) :
    EachStep step safe s (as ++ bs) := by
  induction as generalizing s with
  | nil => exact h' s rfl
  | cons a as ih =>
    intro s₁ hs₁
    obtain ⟨hsafe, hrest⟩ := h s₁ hs₁
    refine ⟨hsafe, ih hrest fun s' hs' => h' s' ?_⟩
    exact Option.bind_eq_some_iff.mpr ⟨s₁, hs₁, hs'⟩

/-- Whether every step is safe can be evaluated. -/
instance EachStep.decidable {safe : σ → α → Prop} [∀ s a, Decidable (safe s a)] :
    ∀ s as, Decidable (EachStep step safe s as)
  | _, [] => .isTrue trivial
  | s, a :: as =>
    have : ∀ s', Decidable (EachStep step safe s' as) := fun s' => EachStep.decidable s' as
    inferInstanceAs (Decidable (∀ s' ∈ step s a, safe s a ∧ EachStep step safe s' as))

/-- **Steps that are safe in one way are safe in another**, where an invariant holds that
the first kind of steps keeps. -/
theorem EachStep.imp_of_invariant {I : σ → Prop} {safe safe' : σ → α → Prop}
    (hI : ∀ s a s', I s → safe s a → step s a = some s' → I s')
    (himp : ∀ s a s', I s → step s a = some s' → safe s a → safe' s a) {s : σ} {as : List α}
    (h : EachStep step safe s as) (hs : I s) : EachStep step safe' s as := by
  induction as generalizing s with
  | nil => trivial
  | cons a as ih =>
    intro s' hs'
    obtain ⟨hsafe, hrest⟩ := h s' hs'
    exact ⟨himp s a s' hs hs' hsafe, ih hrest (hI s a s' hs hsafe hs')⟩

/-- The same, without an invariant. -/
theorem EachStep.imp {safe safe' : σ → α → Prop} {s : σ} {as : List α}
    (h : EachStep step safe s as)
    (himp : ∀ s a s', step s a = some s' → safe s a → safe' s a) : EachStep step safe' s as :=
  h.imp_of_invariant (I := fun _ => True) (fun _ _ _ _ _ _ => trivial)
    (fun s a s' _ hs' hsafe => himp s a s' hs' hsafe) trivial

/-- **What follows from an invariant that safe steps keep holds throughout** a schedule of
such steps. -/
theorem EachStep.always {I P : σ → Prop} {safe : σ → α → Prop}
    (hI : ∀ s a s', I s → safe s a → step s a = some s' → I s') (hP : ∀ s, I s → P s) {s : σ}
    {as : List α} (h : EachStep step safe s as) (hs : I s) : Always step P s as := by
  induction as generalizing s with
  | nil => exact hP s hs
  | cons a as ih =>
    refine ⟨hP s hs, fun s' hs' => ?_⟩
    obtain ⟨hsafe, hrest⟩ := h s' hs'
    exact ih hrest (hI s a s' hs hsafe hs')

/-- Each step that a schedule of safe steps takes is safe. -/
theorem EachStep.safe_of_follow {safe : σ → α → Prop} {s s₁ s₂ : σ} {as bs : List α} {a : α}
    (h : EachStep step safe s (as ++ a :: bs)) (hs₁ : follow step s as = some s₁)
    (hs₂ : step s₁ a = some s₂) : safe s₁ a := by
  induction as generalizing s with
  | nil =>
    cases hs₁
    exact (h s₂ hs₂).1
  | cons a' as ih =>
    obtain ⟨s', hs', hfollow⟩ := Option.bind_eq_some_iff.mp hs₁
    exact ih (h s' hs').2 hfollow

/-- **What every safe step preserves, a schedule of safe steps preserves.** -/
theorem EachStep.invariant {I : σ → Prop} {safe : σ → α → Prop}
    (hI : ∀ s a s', I s → safe s a → step s a = some s' → I s') {s s' : σ} {as : List α}
    (h : EachStep step safe s as) (hs' : follow step s as = some s') (hs : I s) : I s' :=
  (h.always hI (fun _ hs => hs) hs).of_follow hs'

/-- **Two notions of safety that agree where an invariant holds** agree about a
schedule. -/
theorem eachStep_congr {I : σ → Prop} {safe safe' : σ → α → Prop}
    (hI : ∀ s a s', I s → step s a = some s' → I s')
    (hsafe : ∀ s a s', I s → step s a = some s' → (safe s a ↔ safe' s a)) {s : σ} (hs : I s)
    (as : List α) : EachStep step safe s as ↔ EachStep step safe' s as := by
  induction as generalizing s with
  | nil => exact Iff.rfl
  | cons a as ih =>
    refine forall_congr' fun s' => forall_congr' fun hs' => ?_
    exact and_congr (hsafe s a s' hs hs') (ih (hI s a s' hs hs'))

/-- **A property that is lost at the unsafe steps holds throughout exactly if
every step is safe**, in a schedule of actions of some kind. The invariant need
only survive the steps that keep the property. -/
theorem always_iff_eachStep_of_forall {I P : σ → Prop} {Q : α → Prop} {safe : σ → α → Prop}
    (hI : ∀ s a s', Q a → I s → P s → step s a = some s' → P s' → I s')
    (hP : ∀ s a s', Q a → I s → P s → step s a = some s' → (P s' ↔ safe s a)) {s : σ} (hs : I s)
    (hPs : P s) {as : List α} (has : ∀ a ∈ as, Q a) :
    Always step P s as ↔ EachStep step safe s as := by
  induction as generalizing s with
  | nil => exact iff_of_true hPs trivial
  | cons a as ih =>
    obtain ⟨ha, has⟩ := List.forall_mem_cons.mp has
    have hstep : ∀ s', step s a = some s' → P s' →
        (Always step P s' as ↔ EachStep step safe s' as) :=
      fun s' hs' hPs' => ih (hI s a s' ha hs hPs hs' hPs') hPs' has
    constructor
    · rintro ⟨-, h⟩ s' hs'
      have halways := h s' hs'
      exact ⟨(hP s a s' ha hs hPs hs').mp halways.head, (hstep s' hs' halways.head).mp halways⟩
    · intro h
      refine ⟨hPs, fun s' hs' => ?_⟩
      obtain ⟨hsafe, hrest⟩ := h s' hs'
      have hPs' := (hP s a s' ha hs hPs hs').mpr hsafe
      exact (hstep s' hs' hPs').mpr hrest

/-- The same, for actions of any kind. -/
theorem always_iff_eachStep_of_kept {I P : σ → Prop} {safe : σ → α → Prop}
    (hI : ∀ s a s', I s → P s → step s a = some s' → P s' → I s')
    (hP : ∀ s a s', I s → P s → step s a = some s' → (P s' ↔ safe s a)) {s : σ} (hs : I s)
    (hPs : P s) (as : List α) : Always step P s as ↔ EachStep step safe s as :=
  always_iff_eachStep_of_forall (Q := fun _ => True) (fun s a s' _ => hI s a s')
    (fun s a s' _ => hP s a s') hs hPs fun _ _ => trivial

/-- The same, with an invariant that every step keeps. -/
theorem always_iff_eachStep {I P : σ → Prop} {safe : σ → α → Prop}
    (hI : ∀ s a s', I s → step s a = some s' → I s')
    (hP : ∀ s a s', I s → P s → step s a = some s' → (P s' ↔ safe s a)) {s : σ} (hs : I s)
    (hPs : P s) (as : List α) : Always step P s as ↔ EachStep step safe s as :=
  always_iff_eachStep_of_kept (fun s a s' h _ hs' _ => hI s a s' h hs') hP hs hPs as

/-- **A property that is never regained holds in the end exactly if it held
throughout.** -/
theorem always_iff_end {I P : σ → Prop} (hI : ∀ s a s', I s → step s a = some s' → I s')
    (hP : ∀ s a s', I s → step s a = some s' → P s' → P s) {s s' : σ} {as : List α}
    (hs : I s) (hs' : follow step s as = some s') : Always step P s as ↔ P s' := by
  induction as generalizing s with
  | nil =>
    cases hs'
    exact Iff.rfl
  | cons a as ih =>
    obtain ⟨s₁, hs₁, hfollow⟩ := Option.bind_eq_some_iff.mp hs'
    constructor
    · intro h
      exact (ih (hI s a s₁ hs hs₁) hfollow).mp (h.2 s₁ hs₁)
    · intro h
      have halways := (ih (hI s a s₁ hs hs₁) hfollow).mpr h
      refine ⟨hP s a s₁ hs hs₁ halways.head, fun s₂ hs₂ => ?_⟩
      obtain rfl := Option.some.inj (hs₁.symm.trans hs₂)
      exact halways

/-- A measure is never lower after a step that a schedule takes than before
it. -/
def Rising [LE β] (step : σ → α → Option σ) (f : σ → β) : σ → List α → Prop
  | _, [] => True
  | s, a :: as => ∀ s', step s a = some s' → f s ≤ f s' ∧ Rising step f s' as

/-- A measure that no step lowers where an invariant holds never falls. -/
theorem Rising.of_invariant [LE β] {f : σ → β} {I : σ → Prop}
    (hI : ∀ s a s', I s → step s a = some s' → I s')
    (hf : ∀ s a s', I s → step s a = some s' → f s ≤ f s') {s : σ} (hs : I s) (as : List α) :
    Rising step f s as := by
  induction as generalizing s with
  | nil => trivial
  | cons a as ih => exact fun s' hs' => ⟨hf s a s' hs hs', ih (hI s a s' hs hs')⟩

theorem Rising.of_follow [LE β] {f : σ → β} {s s₁ : σ} {as bs : List α}
    (h : Rising step f s (as ++ bs)) (hs₁ : follow step s as = some s₁) :
    Rising step f s₁ bs := by
  induction as generalizing s with
  | nil =>
    cases hs₁
    exact h
  | cons a as ih =>
    obtain ⟨s', hs', hfollow⟩ := Option.bind_eq_some_iff.mp hs₁
    exact ih (h s' hs').2 hfollow

/-- A measure that never falls is in each state of a schedule at least what it
was in any earlier one. -/
theorem Rising.le_of_follow [Preorder β] {f : σ → β} {s s₁ s₂ : σ} {as bs : List α}
    (h : Rising step f s (as ++ bs)) (hs₁ : follow step s as = some s₁)
    (hs₂ : follow step s₁ bs = some s₂) : f s₁ ≤ f s₂ := by
  replace h := h.of_follow hs₁
  clear hs₁
  induction bs generalizing s₁ with
  | nil =>
    cases hs₂
    exact le_rfl
  | cons b bs ih =>
    obtain ⟨s', hs', hfollow⟩ := Option.bind_eq_some_iff.mp hs₂
    obtain ⟨hle, hrest⟩ := h s' hs'
    exact hle.trans (ih hfollow hrest)

/-- **A measure that falls at the unsafe steps never falls exactly if every step
is safe.** The invariant need only survive the steps at which it does not
fall. -/
theorem rising_iff_eachStep [LE β] {f : σ → β} {I : σ → Prop} {safe : σ → α → Prop}
    (hI : ∀ s a s', I s → step s a = some s' → f s ≤ f s' → I s')
    (hf : ∀ s a s', I s → step s a = some s' → (f s ≤ f s' ↔ safe s a)) {s : σ} (hs : I s)
    (as : List α) : Rising step f s as ↔ EachStep step safe s as := by
  induction as generalizing s with
  | nil => exact Iff.rfl
  | cons a as ih =>
    refine forall_congr' fun s' => forall_congr' fun hs' => ?_
    rw [hf s a s' hs hs']
    exact and_congr_right fun hsafe => ih (hI s a s' hs hs' ((hf s a s' hs hs').mpr hsafe))

/-- **A schedule seen through a view.** If each step is, as seen through it, a step of
another kind or none, the schedule is a schedule of those. -/
theorem follow_view {τ γ : Type} {step' : τ → γ → Option τ} {I : σ → Prop} {v : σ → τ}
    {f : α → Option γ} (hI : ∀ s a s', I s → step s a = some s' → I s')
    (hv : ∀ s a s', I s → step s a = some s' →
      (f a).elim (v s' = v s) fun b => step' (v s) b = some (v s')) {s s' : σ} {as : List α}
    (hs : I s) (hs' : follow step s as = some s') :
    follow step' (v s) (as.filterMap f) = some (v s') := by
  induction as generalizing s with
  | nil =>
    cases hs'
    rfl
  | cons a as ih =>
    obtain ⟨s₁, hs₁, hfollow⟩ := Option.bind_eq_some_iff.mp hs'
    have hrest := ih (hI s a s₁ hs hs₁) hfollow
    have hstep := hv s a s₁ hs hs₁
    cases hf : f a with
    | none =>
      rw [hf] at hstep
      rw [List.filterMap_cons_none hf, ← (hstep : v s₁ = v s)]
      exact hrest
    | some b =>
      rw [hf] at hstep
      rw [List.filterMap_cons_some hf]
      exact Option.bind_eq_some_iff.mpr ⟨v s₁, hstep, hrest⟩

end Schedule

end Run
