import Mathlib.Data.List.Infix

/-!
# Cancellation tokens

Tasks are asked to stop through tokens, which come from a library. A token may be
derived from another one, its parent; cancelling a token cancels what was derived
from it, and nothing else.

What the library does is taken here as it is documented. A token tree that does
so names each token by its path from the root.
-/

/-- The operations on cancellation tokens, over the states they are in. -/
structure CancellationTokens (World Token : Type) where
  /-- A new token that is derived from another one. -/
  childToken : Token → World → Token × World
  cancel : Token → World → World
  isCancelled : World → Token → Bool
  /-- The token was made. -/
  Made : World → Token → Prop
  /-- The second token is the first one, or was derived from it, perhaps through
  others. -/
  Derived : Token → Token → Prop

namespace CancellationTokens

variable {World Token : Type}

/-- **What is documented of cancellation tokens.** -/
structure Lawful (tokens : CancellationTokens World Token) : Prop where
  derived_self : ∀ t, tokens.Derived t t
  /-- A child is derived from what its parent is derived from. -/
  derived_child : ∀ t w a, tokens.Derived a (tokens.childToken t w).1
    ↔ a = (tokens.childToken t w).1 ∨ tokens.Derived a t
  made_of_derived : ∀ w a t, tokens.Made w t → tokens.Derived a t → tokens.Made w a
  /-- A child is a token of its own. -/
  not_made_child : ∀ t w, ¬ tokens.Made w (tokens.childToken t w).1
  made_child : ∀ t w, tokens.Made w t →
    tokens.Made (tokens.childToken t w).2 (tokens.childToken t w).1
  made_childToken : ∀ t w u, tokens.Made w u → tokens.Made (tokens.childToken t w).2 u
  made_cancel : ∀ t w u, tokens.Made w u → tokens.Made (tokens.cancel t w) u
  /-- Cancelling a token cancels what is derived from it, and not its parent. -/
  isCancelled_cancel : ∀ t w u, tokens.Made w t →
    (tokens.isCancelled (tokens.cancel t w) u
      ↔ tokens.isCancelled w u ∨ tokens.Derived t u)
  /-- The child of a cancelled token is cancelled. -/
  isCancelled_child : ∀ t w, tokens.Made w t →
    tokens.isCancelled (tokens.childToken t w).2 (tokens.childToken t w).1
      = tokens.isCancelled w t
  isCancelled_childToken : ∀ t w u, tokens.Made w u →
    tokens.isCancelled (tokens.childToken t w).2 u = tokens.isCancelled w u

variable {tokens : CancellationTokens World Token}

/-- A token is not derived from one that was made after it. -/
theorem Lawful.not_derived_child (h : tokens.Lawful) {t u : Token} {w : World}
    (hu : tokens.Made w u) : ¬ tokens.Derived (tokens.childToken t w).1 u := fun hderived =>
  h.not_made_child t w (h.made_of_derived w _ u hu hderived)

/-- **Several tokens are cancelled**, one after the other. -/
theorem Lawful.foldl_cancel (h : tokens.Lawful) (ts : List Token) {w : World}
    (hts : ∀ t ∈ ts, tokens.Made w t) :
    (∀ u, tokens.Made w u → tokens.Made (ts.foldl (fun w t => tokens.cancel t w) w) u)
      ∧ ∀ u, tokens.isCancelled (ts.foldl (fun w t => tokens.cancel t w) w) u
        ↔ tokens.isCancelled w u ∨ ∃ t ∈ ts, tokens.Derived t u := by
  induction ts generalizing w with
  | nil => simp
  | cons t ts ih =>
    obtain ⟨hmade, hcancelled⟩ := ih (w := tokens.cancel t w) fun t' ht' =>
      h.made_cancel t w t' (hts t' (List.mem_cons_of_mem t ht'))
    refine ⟨fun u hu => hmade u (h.made_cancel t w u hu), fun u => ?_⟩
    rw [List.foldl_cons, hcancelled, h.isCancelled_cancel t w u (hts t List.mem_cons_self),
      or_assoc]
    simp

/-! ## A tree of tokens -/

/-- The tokens of a tree. A token is the path to it, its own number first; the root
has none. -/
structure Tree where
  /-- How many tokens were derived. -/
  derived : ℕ := 0
  /-- The tokens that were asked to be cancelled. -/
  cancelled : List (List ℕ) := []
  /-- They are tokens of the tree. -/
  lt_derived : ∀ t ∈ cancelled, ∀ n ∈ t, n < derived := by simp

/-- A tree with nothing but its root. -/
def Tree.new : Tree := {}

/-- The token is one of the tree. -/
def Tree.Has (w : Tree) (t : List ℕ) : Prop := ∀ n ∈ t, n < w.derived

instance (w : Tree) : DecidablePred w.Has :=
  fun t => inferInstanceAs (Decidable (∀ n ∈ t, n < w.derived))

/-- A token of the tree is cancelled if it is to be, or one above it. -/
def tree : CancellationTokens Tree (List ℕ) where
  childToken t w :=
    (w.derived :: t,
      { w with
        derived := w.derived + 1
        lt_derived := fun t ht n hn => (w.lt_derived t ht n hn).trans (Nat.lt_succ_self _) })
  cancel t w :=
    if h : w.Has t then
      { w with
        cancelled := t :: w.cancelled
        lt_derived := List.forall_mem_cons.mpr ⟨h, w.lt_derived⟩ }
    else w
  isCancelled w t := w.cancelled.any fun a => a.isSuffixOf t
  Made := Tree.Has
  Derived a t := a <:+ t

theorem tree_lawful : tree.Lawful where
  derived_self := List.suffix_refl
  derived_child t w a := List.suffix_cons_iff
  made_of_derived w a t ht ha n hn := ht n (ha.subset hn)
  not_made_child t w h := lt_irrefl w.derived (h w.derived List.mem_cons_self)
  made_child t w ht := List.forall_mem_cons.mpr
    ⟨Nat.lt_succ_self _, fun n hn => (ht n hn).trans (Nat.lt_succ_self _)⟩
  made_childToken t w u hu n hn := (hu n hn).trans (Nat.lt_succ_self _)
  made_cancel t w u hu := by
    simp only [tree]
    split
    · exact hu
    · exact hu
  isCancelled_cancel t w u ht := by
    have hhas : w.Has t := ht
    simp [tree, hhas, or_comm]
  isCancelled_child t w ht := by
    have hsuffix : ∀ a ∈ w.cancelled, a <:+ w.derived :: t ↔ a <:+ t := fun a ha => by
      refine List.suffix_cons_iff.trans (or_iff_right fun heq => ?_)
      exact lt_irrefl _ (w.lt_derived a ha w.derived (heq ▸ List.mem_cons_self))
    refine Bool.eq_iff_iff.mpr ?_
    simp only [tree, List.any_eq_true, List.isSuffixOf_iff_suffix]
    exact exists_congr fun a => and_congr_right fun ha => hsuffix a ha
  isCancelled_childToken t w u hu := rfl

end CancellationTokens
