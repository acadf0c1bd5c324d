import IntuitionCore.Library.Result
import Mathlib.Data.List.Basic

/-!
# Options given by arguments

A command reads its arguments one after the other, each of which it may refuse, and each of
which may give one of the options a value. Of several values for an option the last one stays,
so all of them are the value of the option only if they are one.
-/

namespace Options

variable {ε σ α ν : Type} {step : σ → α → Except ε σ} {s s' : σ} {args : List α}

/-- The arguments are read if none of them is refused. -/
theorem exists_foldlM {accepted : α → Prop}
    (h : ∀ s a, (∃ s', step s a = .ok s') ↔ accepted a) :
    (∃ s', args.foldlM step s = .ok s') ↔ ∀ a ∈ args, accepted a := by
  induction args generalizing s with
  | nil => simp [pure, Except.pure]
  | cons a args ih =>
    rw [List.foldlM_cons, List.forall_mem_cons, ← h s a]
    constructor
    · rintro ⟨s', hrun⟩
      obtain ⟨s₁, hstep, hrun⟩ := Result.bind_eq_ok.mp hrun
      exact ⟨⟨s₁, hstep⟩, ih.mp ⟨s', hrun⟩⟩
    · rintro ⟨⟨s₁, hstep⟩, hall⟩
      obtain ⟨s', hrun⟩ := ih.mpr hall
      exact ⟨s', Result.bind_eq_ok.mpr ⟨s₁, hstep, hrun⟩⟩

/-- What every argument preserves is preserved by all. -/
theorem foldlM_preserves {P : σ → Prop} (hkeep : ∀ s a s', step s a = .ok s' → P s → P s')
    (hrun : args.foldlM step s = .ok s') (hs : P s) : P s' := by
  induction args generalizing s with
  | nil =>
    cases hrun
    exact hs
  | cons a args ih =>
    obtain ⟨s₁, hstep, hrun⟩ := Result.bind_eq_ok.mp hrun
    exact ih hrun (hkeep s a s₁ hstep hs)

/-- What one argument establishes, and all preserve, holds in the end. -/
theorem foldlM_of_mem {P : σ → Prop} {a : α} (ha : a ∈ args)
    (h : ∀ s b s', step s b = .ok s' → P s ∨ b = a → P s')
    (hrun : args.foldlM step s = .ok s') : P s' := by
  induction args generalizing s with
  | nil => cases ha
  | cons b args ih =>
    obtain ⟨s₁, hstep, hrest⟩ := Result.bind_eq_ok.mp hrun
    obtain rfl | ha := List.mem_cons.mp ha
    · exact foldlM_preserves (fun s b s' hs hP => h s b s' hs (.inl hP)) hrest
        (h s a s₁ hstep (.inr rfl))
    · exact ih ha hrest

/-- What holds of the options where all arguments are read, holds unless one is refused. -/
theorem forall_ok_iff {result : Except ε σ} {P : σ → Prop} {accepted clear : Prop}
    (ha : (∃ s, result = .ok s) ↔ accepted) (hc : ∀ s, result = .ok s → (P s ↔ clear)) :
    (∀ s, result = .ok s → P s) ↔ (accepted → clear) := by
  constructor
  · intro h hacc
    obtain ⟨s, hs⟩ := ha.mpr hacc
    exact (hc s hs).mp (h s hs)
  · exact fun h s hs => (hc s hs).mpr (h (ha.mp ⟨s, hs⟩))

/-! ## Options with one value -/

section Get

variable {get : σ → ν} {value : α → Option ν}
  (h : ∀ s a s', step s a = .ok s' → get s' = (value a).getD (get s))
include h

/-- **The last value stays.** -/
theorem get_foldlM (hrun : args.foldlM step s = .ok s') :
    get s' = (args.filterMap value).getLast?.getD (get s) := by
  induction args generalizing s with
  | nil =>
    cases hrun
    rfl
  | cons a args ih =>
    obtain ⟨s₁, hstep, hrun⟩ := Result.bind_eq_ok.mp hrun
    rw [ih hrun, h s a s₁ hstep, List.filterMap_cons]
    cases value a with
    | none => rfl
    | some v =>
      cases args.filterMap value with
      | nil => rfl
      | cons w ws => simp [List.getLast?_cons]

/-- An option that some argument gives a value has the value that one of them gives it. -/
theorem exists_get_foldlM (hrun : args.foldlM step s = .ok s') {a : α} {v : ν} (ha : a ∈ args)
    (hv : v ∈ value a) : ∃ b ∈ args, get s' ∈ value b := by
  rw [get_foldlM h hrun]
  cases hl : (args.filterMap value).getLast? with
  | none =>
    have hmem : v ∈ args.filterMap value := List.mem_filterMap.mpr ⟨a, ha, hv⟩
    rw [List.getLast?_eq_none_iff.mp hl] at hmem
    cases hmem
  | some w => exact List.mem_filterMap.mp (List.mem_of_getLast? hl)

/-- **Where all values are one, that is the one that stays.** -/
theorem get_eq_of_mem (hrun : args.foldlM step s = .ok s') {w : ν}
    (hone : ∀ a ∈ args, ∀ v ∈ value a, v = w) {a : α} {v : ν} (ha : a ∈ args)
    (hv : v ∈ value a) : get s' = w := by
  obtain ⟨b, hb, hmem⟩ := exists_get_foldlM h hrun ha hv
  exact hone b hb _ hmem

end Get

end Options
