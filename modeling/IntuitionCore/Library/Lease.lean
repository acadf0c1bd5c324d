import Mathlib.Data.List.Basic

/-!
# Leases that are fenced

A run claims a lease, renews it, and ends it when it finishes. A claim may also take
the lease from a run whose time is over, and anyone may revoke it. The lease is
fenced if only the run that holds it can renew it or finish.

The history of a lease tells who holds it. In a history in which every event was
permitted and no run claimed twice, a run that lost the lease never acts again, and
no run finishes twice.
-/

/-- What happens to a lease, by runs `ρ`. -/
inductive LeaseEvent (ρ : Type) where
  | claimed (run : ρ) (now expiry : ℕ)
  | renewed (run : ρ) (expiry : ℕ)
  /-- The lease is made to expire then, whoever holds it. -/
  | released (expiry : ℕ)
  | finished (run : ρ)
  | revoked

/-- An event ends the hold of a run, unless it is its own claim. -/
def LeaseEvent.Ends {ρ : Type} (run : ρ) : LeaseEvent ρ → Prop
  | .claimed run' _ _ => run' ≠ run
  | .finished _ | .revoked => True
  | .renewed _ _ | .released _ => False

/-- An event is a claim. -/
def LeaseEvent.IsClaim {ρ : Type} : LeaseEvent ρ → Prop
  | .claimed _ _ _ => True
  | .renewed _ _ | .finished _ | .released _ | .revoked => False

/-- An event is an act of a run that holds the lease. -/
def LeaseEvent.IsActOf {ρ : Type} (run : ρ) : LeaseEvent ρ → Prop
  | .renewed run' _ | .finished run' => run' = run
  | .claimed _ _ _ | .released _ | .revoked => False

/-- A lease that a run holds. -/
structure Lease (ρ : Type) where
  holder : ρ
  expiry : ℕ

namespace Lease

variable {ρ : Type}

/-- A lease after an event. -/
def apply (lease : Option (Lease ρ)) : LeaseEvent ρ → Option (Lease ρ)
  | .claimed run _ expiry => some ⟨run, expiry⟩
  | .renewed _ expiry | .released expiry => lease.map fun l => { l with expiry }
  | .finished _ | .revoked => none

/-- Whether an event may happen to a lease: it may be claimed once it has expired, and
only its holder renews it or finishes. -/
def Permits (lease : Option (Lease ρ)) : LeaseEvent ρ → Prop
  | .claimed _ now _ => ∀ l ∈ lease, l.expiry < now
  | .renewed run _ | .finished run => ∃ l ∈ lease, l.holder = run
  | .released _ | .revoked => True

/-- The lease after a history, whose newest event comes first. -/
def replay : List (LeaseEvent ρ) → Option (Lease ρ)
  | [] => none
  | e :: older => apply (replay older) e

/-- A run has claimed the lease. -/
def Claimed (run : ρ) (history : List (LeaseEvent ρ)) : Prop :=
  ∃ now expiry, .claimed run now expiry ∈ history

/-- Every event of a history was permitted, and no run claimed twice. -/
def Lawful : List (LeaseEvent ρ) → Prop
  | [] => True
  | e :: older => Permits (replay older) e
    ∧ (∀ run now expiry, e = .claimed run now expiry → ¬ Claimed run older) ∧ Lawful older

variable {run : ρ} {e : LeaseEvent ρ} {lease : Option (Lease ρ)} {l : Lease ρ}
  {history newer older : List (LeaseEvent ρ)}

theorem Claimed.append (h : Claimed run older) (newer : List (LeaseEvent ρ)) :
    Claimed run (newer ++ older) := by
  obtain ⟨now, expiry, hmem⟩ := h
  exact ⟨now, expiry, List.mem_append_right _ hmem⟩

/-- What is left of a history was lawful. -/
theorem Lawful.of_append (h : Lawful (newer ++ older)) : Lawful older := by
  induction newer with
  | nil => exact h
  | cons e newer ih => exact ih h.2.2

/-- An event that is not a claim leaves the lease to its holder, or ends it. -/
theorem holder_of_apply (h : apply lease e = some l)
    (he : ∀ now expiry, e ≠ .claimed l.holder now expiry) : ∃ l' ∈ lease, l'.holder = l.holder := by
  cases e with
  | claimed run now expiry =>
    cases h
    exact absurd rfl (he now expiry)
  | renewed _ expiry | released expiry =>
    obtain ⟨l', hl', rfl⟩ := Option.map_eq_some_iff.mp h
    exact ⟨l', hl', rfl⟩
  | finished _ | revoked => cases h

/-- Whoever holds the lease has claimed it. -/
theorem claimed_of_replay (h : replay history = some l) : Claimed l.holder history := by
  induction history generalizing l with
  | nil => cases h
  | cons e older ih =>
    by_cases he : ∃ now expiry, e = .claimed l.holder now expiry
    · obtain ⟨now, expiry, rfl⟩ := he
      exact ⟨now, expiry, List.mem_cons_self⟩
    · obtain ⟨l', hl', hholder⟩ := holder_of_apply h fun now expiry heq => he ⟨now, expiry, heq⟩
      exact hholder ▸ (ih hl').append [e]

/-- An event that ends a hold leaves the lease to another run, or to none. -/
theorem holder_ne_of_ends (he : e.Ends run) (h : apply lease e = some l) : l.holder ≠ run := by
  cases e with
  | claimed run' now expiry =>
    cases h
    exact he
  | renewed | released => exact he.elim
  | finished | revoked => cases h

/-- **A run that lost the lease does not get it back.** -/
theorem Lawful.holder_ne (h : Lawful (newer ++ e :: older)) (hclaimed : Claimed run older)
    (he : e.Ends run) (hl : replay (newer ++ e :: older) = some l) : l.holder ≠ run := by
  induction newer generalizing l with
  | nil => exact holder_ne_of_ends he hl
  | cons e' newer ih =>
    by_cases he' : ∃ now expiry, e' = .claimed l.holder now expiry
    · obtain ⟨now, expiry, heq⟩ := he'
      rintro rfl
      exact h.2.1 _ _ _ heq ((hclaimed.append [e]).append newer)
    · obtain ⟨l', hl', hholder⟩ := holder_of_apply hl fun now expiry heq => he' ⟨now, expiry, heq⟩
      exact hholder ▸ ih h.2.2 hl'

/-- **A run that lost the lease never acts again.** -/
theorem Lawful.not_permits (h : Lawful (newer ++ e :: older)) (hclaimed : Claimed run older)
    (he : e.Ends run) {act : LeaseEvent ρ} (hact : act.IsActOf run) :
    ¬ Permits (replay (newer ++ e :: older)) act := by
  intro hpermits
  cases act with
  | renewed run' _ | finished run' =>
    obtain ⟨l, hl, hholder⟩ := hpermits
    exact h.holder_ne hclaimed he hl (hholder.trans hact)
  | claimed | released | revoked => exact hact

/-- **A run finishes at most once.** -/
theorem Lawful.finished_notMem (h : Lawful (newer ++ .finished run :: older)) :
    .finished run ∉ newer := by
  intro hmem
  obtain ⟨newest, between, rfl⟩ := List.append_of_mem hmem
  rw [List.append_assoc] at h
  have hlawful : Lawful (.finished run :: (between ++ .finished run :: older)) := h.of_append
  obtain ⟨l, hl, rfl⟩ := hlawful.2.2.of_append.1
  have hact : (LeaseEvent.finished l.holder).IsActOf l.holder := rfl
  exact hlawful.2.2.not_permits (claimed_of_replay hl) trivial hact hlawful.1

end Lease
