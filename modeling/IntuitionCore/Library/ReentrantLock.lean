import Mathlib.Data.Nat.Notation

/-!
# A lock that its holder can take again

A lock is held by one session at a time, and that session may take it again; it is
free when it was released as often as it was taken. A session that tries to take a
lock of another one is refused, and one that releases it does nothing.
-/

/-- A lock that is held. It was taken at least once. -/
structure HeldLock (σ : Type) where
  holder : σ
  /-- How many more times it was taken. -/
  again : ℕ
  deriving DecidableEq, Repr

/-- A lock; `none` is free. -/
abbrev ReentrantLock (σ : Type) : Type := Option (HeldLock σ)

namespace ReentrantLock

variable {σ : Type} [DecidableEq σ]

/-- A session tries to take the lock: whether it has it, and the lock then. -/
def tryAcquire (lock : ReentrantLock σ) (s : σ) : Bool × ReentrantLock σ :=
  match lock with
  | none => (true, some ⟨s, 0⟩)
  | some held =>
    if held.holder = s then (true, some ⟨s, held.again + 1⟩) else (false, some held)

/-- A session releases the lock once, if it holds it. -/
def release (lock : ReentrantLock σ) (s : σ) : ReentrantLock σ :=
  match lock with
  | none => none
  | some held =>
    if held.holder = s then
      match held.again with
      | 0 => none
      | n + 1 => some ⟨s, n⟩
    else some held

/-- A lock that was taken once is free once its holder releases it. -/
theorem release_once (h s : σ) :
    release (some ⟨h, 0⟩) s = if h = s then none else some ⟨h, 0⟩ := rfl

end ReentrantLock
