import IntuitionCore.Library.Run
import Mathlib.Data.Set.Basic

/-!
# Checking first and acting later

A party checks a condition in one step and acts on it in a later one. Whatever others
do in between, what was checked is still true when it is acted on, provided that no
step of theirs makes it false.
-/

namespace CheckThenAct

open Run

variable {σ α κ : Type} (step : σ → α → Option σ) (pending : σ → Set κ) (Cond : κ → σ → Prop)

/-- A step makes nothing false that was checked and is still to be acted on. -/
def Undisturbed (s : σ) (a : α) : Prop :=
  ∀ s', step s a = some s' → ∀ k ∈ pending s, k ∈ pending s' → Cond k s → Cond k s'

variable {step pending Cond}

/-- **Where nothing is disturbed, every act is safe**: it is enough that, while all that
is pending is true, an act is safe, and that what becomes pending is true then. -/
theorem eachStep_of_undisturbed {I : σ → Prop} {safe : σ → α → Prop}
    (hI : ∀ s a s', I s → step s a = some s' → I s')
    (hcheck : ∀ s a s', I s → step s a = some s' → (∀ k ∈ pending s, Cond k s) →
      ∀ k ∈ pending s', k ∈ pending s ∨ Cond k s')
    (hact : ∀ s a s', I s → step s a = some s' → (∀ k ∈ pending s, Cond k s) → safe s a)
    {s : σ} (hs : I s) (hpending : ∀ k ∈ pending s, Cond k s) {as : List α}
    (h : EachStep step (Undisturbed step pending Cond) s as) : EachStep step safe s as := by
  refine h.imp_of_invariant (I := fun s => I s ∧ ∀ k ∈ pending s, Cond k s) ?_ ?_ ⟨hs, hpending⟩
  · rintro s a s' ⟨hIs, hall⟩ hundisturbed hs'
    refine ⟨hI s a s' hIs hs', fun k hk => ?_⟩
    obtain hold | hnew := hcheck s a s' hIs hs' hall k hk
    · exact hundisturbed s' hs' k hold hk (hall k hold)
    · exact hnew
  · rintro s a s' ⟨hIs, hall⟩ hs' -
    exact hact s a s' hIs hs' hall

end CheckThenAct
