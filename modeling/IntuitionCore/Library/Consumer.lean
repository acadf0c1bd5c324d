import IntuitionCore.Library.Insertion
import IntuitionCore.Library.Run
import Mathlib.Algebra.BigOperators.Group.List.Basic

/-!
# Consumers of a log

A consumer has a store and a mark on a log. It is given the events it wants after
the mark, a bounded number of them, works them into its store, and moves the mark
to the last of them. It may fail to move the mark; then it is given these events
again, perhaps with others that the log has grown by.

So a consumer is given what lies up to its mark, and what it is given *again*. Two
kinds of stores show what becomes of that. A measure of the store to which each
event adds its part has the parts of both. A store that is filled by insertions
that settle shows nothing of what was given again.

Several consumers follow one log without knowing of each other: what happens to one
of them in a schedule of all is a schedule of its own.
-/

namespace Feed

/-- A consumer of a log: how far it is, and what it has made of it. -/
structure Consumer (ε σ : Type) where
  log : List ε
  mark : ℕ
  store : σ

namespace Consumer

/-- What happens to a consumer. -/
inductive Action (ε : Type) where
  /-- Events are appended to the log. -/
  | grow (es : List ε)
  /-- A batch of at most some size is worked in, and the mark is moved or not. -/
  | deliver (size : ℕ) (saved : Bool)

variable {ε σ M : Type} (pos : ε → ℕ) (wants : ε → Bool) (process : σ → List ε → σ)

/-- The next batch. -/
def batch (c : Consumer ε σ) (size : ℕ) : List ε := poll pos wants c.mark size c.log

/-- What lies up to the mark. -/
def passed (c : Consumer ε σ) : List ε := (upTo pos c.mark c.log).filter wants

/-- The log grows at its end; a batch is worked in, if there is one. -/
def step (c : Consumer ε σ) : Action ε → Option (Consumer ε σ)
  | .grow es =>
    if InOrder pos (c.log ++ es) ∧ ∀ e ∈ es, 0 < pos e then some { c with log := c.log ++ es }
    else none
  | .deliver size saved =>
    (c.batch pos wants size).getLast?.map fun last =>
      { c with
        mark := if saved then pos last else c.mark
        store := process c.store (c.batch pos wants size) }

/-- What an action gives a consumer without moving its mark. -/
def unsaved (c : Consumer ε σ) : Action ε → List ε
  | .deliver size false => c.batch pos wants size
  | _ => []

/-- **What a consumer is given again**: the batches after which its mark was not
moved. -/
def again (c : Consumer ε σ) : List (Action ε) → List ε
  | [] => []
  | a :: as =>
    c.unsaved pos wants a
      ++ (c.step pos wants process a).elim [] fun c' => again c' as

/-- The log is in order, and the mark is on it. -/
structure Sound (c : Consumer ε σ) : Prop where
  inOrder : InOrder pos c.log
  mark_mem : c.mark = 0 ∨ ∃ e ∈ c.log, c.mark = pos e

/-- A consumer that has not been given anything. -/
structure Fresh (c : Consumer ε σ) : Prop where
  inOrder : InOrder pos c.log
  pos_pos : ∀ e ∈ c.log, 0 < pos e
  mark_eq : c.mark = 0

variable {pos wants process} {c c' : Consumer ε σ} {a : Action ε} {as : List (Action ε)}
  {es : List ε} {size : ℕ} {saved : Bool}

theorem Fresh.sound (h : c.Fresh pos) : c.Sound pos := ⟨h.inOrder, .inl h.mark_eq⟩

theorem Fresh.mark_lt (h : c.Fresh pos) : ∀ e ∈ c.log, c.mark < pos e := fun e he => by
  rw [h.mark_eq]
  exact h.pos_pos e he

theorem Fresh.passed_eq_nil (h : c.Fresh pos) : c.passed pos wants = [] := by
  rw [passed, upTo_eq_nil h.mark_lt, List.filter_nil]

/-- What the log grows by lies after the mark. -/
theorem Sound.mark_lt (h : c.Sound pos) (hord : InOrder pos (c.log ++ es))
    (hpos : ∀ e ∈ es, 0 < pos e) : ∀ e ∈ es, c.mark < pos e := fun e he => by
  obtain hc | ⟨f, hf, hc⟩ := h.mark_mem
  · exact hc ▸ hpos e he
  · exact hc ▸ (List.pairwise_append.mp hord).2.2 f hf e he

/-! ## What a step does -/

theorem step_grow (h : c.step pos wants process (.grow es) = some c') :
    InOrder pos (c.log ++ es) ∧ (∀ e ∈ es, 0 < pos e) ∧ c' = { c with log := c.log ++ es } := by
  by_cases hes : InOrder pos (c.log ++ es) ∧ ∀ e ∈ es, 0 < pos e
  · have hstep := (if_pos hes).symm.trans h
    exact ⟨hes.1, hes.2, (Option.some.inj hstep).symm⟩
  · exact absurd ((if_neg hes).symm.trans h) (Option.some_ne_none c').symm

theorem step_deliver (h : c.step pos wants process (.deliver size saved) = some c') :
    ∃ hne : c.batch pos wants size ≠ [],
      c' = { c with
        mark := if saved then pos ((c.batch pos wants size).getLast hne) else c.mark
        store := process c.store (c.batch pos wants size) } := by
  obtain ⟨last, hlast, rfl⟩ := Option.map_eq_some_iff.mp h
  have hne : c.batch pos wants size ≠ [] := by
    intro hnil
    rw [hnil] at hlast
    cases hlast
  rw [List.getLast?_eq_some_getLast hne] at hlast
  cases hlast
  exact ⟨hne, rfl⟩

theorem Sound.step (h : c.Sound pos) (hs : c.step pos wants process a = some c') :
    c'.Sound pos := by
  cases a with
  | grow es =>
    obtain ⟨hord, -, rfl⟩ := step_grow hs
    exact ⟨hord, h.mark_mem.imp_right fun ⟨e, he, hc⟩ => ⟨e, List.mem_append_left es he, hc⟩⟩
  | deliver size saved =>
    obtain ⟨hne, rfl⟩ := step_deliver hs
    refine ⟨h.inOrder, ?_⟩
    cases saved with
    | false => exact h.mark_mem
    | true =>
      have hlast : (c.batch pos wants size).getLast hne ∈ poll pos wants c.mark size c.log :=
        List.getLast_mem hne
      exact .inr ⟨_, List.mem_of_mem_filter (List.mem_of_mem_filter (List.mem_of_mem_take hlast)),
        rfl⟩

/-- **What a step passes**: a batch whose mark is saved, and nothing else. -/
theorem Sound.passed_step (h : c.Sound pos) (hs : c.step pos wants process a = some c') :
    c'.passed pos wants = c.passed pos wants
      ++ match a with | .deliver size true => c.batch pos wants size | _ => [] := by
  cases a with
  | grow es =>
    obtain ⟨hord, hpos, rfl⟩ := step_grow hs
    show (upTo pos c.mark (c.log ++ es)).filter wants = _
    rw [upTo_append, upTo_eq_nil (h.mark_lt hord hpos), List.append_nil, List.append_nil]
    rfl
  | deliver size saved =>
    obtain ⟨hne, rfl⟩ := step_deliver hs
    cases saved with
    | false => exact (List.append_nil _).symm
    | true => exact upTo_getLast_poll h.inOrder hne

/-! ## Stores that add up -/

/-- What has no part of a sum can be left out of it. -/
theorem sum_map_filter [AddMonoid M] {f : ε → M} {p : ε → Bool} {es : List ε}
    (h : ∀ e ∈ es, p e = false → f e = 0) : ((es.filter p).map f).sum = (es.map f).sum := by
  induction es with
  | nil => rfl
  | cons e es ih =>
    obtain ⟨he, hes⟩ := List.forall_mem_cons.mp h
    cases hp : p e with
    | true =>
      rw [List.filter_cons_of_pos hp, List.map_cons, List.map_cons, List.sum_cons, List.sum_cons,
        ih hes]
    | false =>
      rw [List.filter_cons_of_neg (hp ▸ Bool.false_ne_true), List.map_cons, List.sum_cons, he hp,
        zero_add, ih hes]

section Measure

variable [AddCommMonoid M] {μ : σ → M} {f : ε → M}

/-- **A step adds the parts of its batch**, to what was passed or to what was given
again. -/
theorem Sound.measure_step (h : c.Sound pos)
    (hμ : ∀ s es, μ (process s es) = μ s + (es.map f).sum)
    (hs : c.step pos wants process a = some c') {m x : M}
    (hc : μ c.store = m + ((c.passed pos wants).map f).sum + x) :
    μ c'.store = m + ((c'.passed pos wants).map f).sum
      + (x + ((c.unsaved pos wants a).map f).sum) := by
  rw [h.passed_step hs]
  cases a with
  | grow es =>
    obtain ⟨-, -, rfl⟩ := step_grow hs
    simpa [unsaved] using hc
  | deliver size saved =>
    obtain ⟨hne, rfl⟩ := step_deliver hs
    refine (hμ c.store _).trans ?_
    rw [hc]
    cases saved with
    | false => simp [unsaved, add_assoc]
    | true => simp [unsaved, add_assoc, add_comm x]

/-- **A measure to which each event adds its part** has, after a schedule, the parts of
what was passed and of what was given again. -/
theorem Fresh.measure_follow (h : c.Fresh pos)
    (hμ : ∀ s es, μ (process s es) = μ s + (es.map f).sum)
    (hs : Run.follow (Consumer.step pos wants process) c as = some c') :
    μ c'.store = μ c.store + ((c'.passed pos wants).map f).sum
      + ((c.again pos wants process as).map f).sum := by
  have hfollow : ∀ (as : List (Action ε)) (d : Consumer ε σ) (x : M), d.Sound pos →
      μ d.store = μ c.store + ((d.passed pos wants).map f).sum + x →
      Run.follow (Consumer.step pos wants process) d as = some c' →
      μ c'.store = μ c.store + ((c'.passed pos wants).map f).sum
        + (x + ((d.again pos wants process as).map f).sum) := by
    intro as
    induction as with
    | nil =>
      intro d x _ hd hs
      cases hs
      simpa [again] using hd
    | cons a as ih =>
      intro d x hsound hd hs
      obtain ⟨d', hd', hfollow⟩ := Option.bind_eq_some_iff.mp hs
      have hrest := ih d' _ (hsound.step hd') (hsound.measure_step hμ hd' hd) hfollow
      rw [hrest, again, hd', List.map_append, List.sum_append, add_assoc x]
      rfl
  have hstart : μ c.store = μ c.store + ((c.passed pos wants).map f).sum + 0 := by
    simp [h.passed_eq_nil]
  rw [hfollow as c 0 h.sound hstart hs, zero_add]

end Measure

/-! ## Stores that are filled -/

section Filled

variable {ins : σ → ε → σ} {s₀ : σ}

/-- **What a consumer was given again does not show in a store that is filled by
insertions that settle.** -/
theorem Sound.filled_step (h : c.Sound pos) (hins : Settles ins)
    (hprocess : ∀ s es, process s es = es.foldl ins s)
    (hs : c.step pos wants process a = some c')
    (hc : Filled pos wants ins s₀ c.log c.mark c.store) :
    Filled pos wants ins s₀ c'.log c'.mark c'.store := by
  cases a with
  | grow es =>
    obtain ⟨hord, hpos, rfl⟩ := step_grow hs
    exact hc.grow (h.mark_lt hord hpos)
  | deliver size saved =>
    obtain ⟨hne, rfl⟩ := step_deliver hs
    obtain ⟨hstay, hmove⟩ := hc.poll (n := size) hins h.inOrder
    show Filled pos wants ins s₀ c.log (if saved = true then _ else _) (process c.store _)
    rw [hprocess]
    cases saved with
    | false => exact hstay
    | true => exact hmove hne

theorem Fresh.filled_follow (h : c.Fresh pos) (hins : Settles ins)
    (hprocess : ∀ s es, process s es = es.foldl ins s)
    (hs : Run.follow (Consumer.step pos wants process) c as = some c') :
    Filled pos wants ins c.store c'.log c'.mark c'.store := by
  refine (Run.invariant_of_follow (I := fun d => d.Sound pos
    ∧ Filled pos wants ins c.store d.log d.mark d.store) (fun d a d' hd hstep => ?_) hs
    ⟨h.sound, .start h.mark_lt⟩).2
  exact ⟨hd.1.step hstep, hd.1.filled_step hins hprocess hstep hd.2⟩

end Filled

/-- A consumer that has been given everything has passed everything it wants. -/
theorem passed_eq_filter (h : ∀ e ∈ c.log, wants e = true → pos e ≤ c.mark) :
    c.passed pos wants = c.log.filter wants := by
  rw [passed, ← upTo_filter]
  refine upTo_eq_self fun e he => ?_
  obtain ⟨hmem, hwants⟩ := List.mem_filter.mp he
  exact h e hmem hwants

theorem Sound.follow (h : c.Sound pos)
    (hs : Run.follow (Consumer.step pos wants process) c as = some c') : c'.Sound pos :=
  Run.invariant_of_follow (fun _ _ _ hd hstep => Sound.step hd hstep) hs h

end Consumer

end Feed
