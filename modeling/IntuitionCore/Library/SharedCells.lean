import IntuitionCore.Library.Consumer
import Mathlib.Logic.Function.Basic

/-!
# Cells that several consumers write

Several consumers of one log work on one store, each with a mark of its own. A *cell* of
the store is overwritten by what some events say, and left alone by the others; which
events these are depends on the consumer.

A consumer that cannot move its mark is given events again, and writes what is older over
what is newer. Still the cell never shows anything odd: it is the *last write* of a
beginning of what one of the consumers wants, a beginning that has everything this consumer
has passed. Where only one consumer writes a cell, it is the last write of that consumer,
and once it has passed everything, the last write there is.
-/

namespace Feed

/-! ## Last writes -/

section LastWrite

variable {ε v : Type} (f : ε → Option v)

/-- What the last event that writes a cell writes. -/
def lastWrite (es : List ε) : Option v := (es.filterMap f).getLast?

variable {f} {es fs : List ε}

@[simp] theorem lastWrite_nil : lastWrite f [] = none := rfl

/-- What is written later counts. -/
theorem lastWrite_append : lastWrite f (es ++ fs) = (lastWrite f fs).or (lastWrite f es) := by
  unfold lastWrite
  rw [List.filterMap_append, List.getLast?_append]

theorem lastWrite_cons (e : ε) : lastWrite f (e :: es) = (lastWrite f es).or (f e) := by
  have hone : lastWrite f [e] = f e := by
    unfold lastWrite
    cases hf : f e with
    | none => rw [List.filterMap_cons_none hf]; rfl
    | some x => rw [List.filterMap_cons_some hf]; rfl
  rw [← List.singleton_append, lastWrite_append, hone]

/-- What is written in several parts is written part by part. -/
theorem lastWrite_flatMap {δ : Type} {g : δ → List ε} (ds : List δ) :
    lastWrite f (ds.flatMap g) = lastWrite (fun d => lastWrite f (g d)) ds := by
  induction ds with
  | nil => rfl
  | cons d ds ih => rw [List.flatMap_cons, lastWrite_append, lastWrite_cons, ih]

theorem lastWrite_eq_none_iff : lastWrite f es = none ↔ ∀ e ∈ es, f e = none := by
  unfold lastWrite
  rw [List.getLast?_eq_none_iff, List.filterMap_eq_nil_iff]

theorem exists_of_lastWrite {x : v} (h : lastWrite f es = some x) : ∃ e ∈ es, f e = some x :=
  List.mem_filterMap.mp (List.mem_of_getLast? h)

/-- What has happened at all: a cell that is marked by some events. -/
theorem lastWrite_mark (P : ε → Prop) [DecidablePred P] :
    lastWrite (fun e => if P e then some () else none) es
      = if ∃ e ∈ es, P e then some () else none := by
  by_cases h : ∃ e ∈ es, P e
  · rw [if_pos h]
    cases hlast : lastWrite (fun e => if P e then some () else none) es with
    | some x => rfl
    | none =>
      obtain ⟨e, he, hP⟩ := h
      have hnone : (if P e then some () else none) = none :=
        lastWrite_eq_none_iff.mp hlast e he
      rw [if_pos hP] at hnone
      cases hnone
  · rw [if_neg h]
    exact lastWrite_eq_none_iff.mpr fun e he => if_neg fun hP => h ⟨e, he, hP⟩

/-- Of two beginnings, the longer one has the last write of the first, if the second adds
nothing to it that is written. -/
theorem exists_longer {ps bs all : List ε} (hes : es <+: all) (hbs : ps ++ bs <+: all)
    (hps : ps <+: es) (hnone : lastWrite f bs = none) :
    ∃ ls, es <+: ls ∧ ps ++ bs <+: ls ∧ ls <+: all ∧ lastWrite f ls = lastWrite f es := by
  obtain hle | hle := List.prefix_or_prefix_of_prefix hes hbs
  · refine ⟨ps ++ bs, hle, List.prefix_rfl, hbs, ?_⟩
    obtain ⟨rest, rfl⟩ := hps
    obtain ⟨cs, hcs⟩ := hle
    rw [List.append_assoc] at hcs
    have hsplit := List.append_cancel_left hcs
    rw [← hsplit, lastWrite_append, Option.or_eq_none_iff] at hnone
    rw [← hsplit, ← List.append_assoc, lastWrite_append, hnone.1, Option.none_or]
  · exact ⟨es, List.prefix_rfl, hle, hes, rfl⟩

end LastWrite

/-! ## Consumers that share a store -/

/-- Consumers of a log that work on one store. -/
structure Consumers (ι ε σ : Type) where
  log : List ε
  mark : ι → ℕ
  store : σ

namespace Consumers

/-- What happens to the consumers. -/
inductive Action (ι ε : Type) where
  /-- Events are appended to the log. -/
  | grow (es : List ε)
  /-- A batch of at most some size is worked in by one of them, and its mark is moved or not. -/
  | deliver (i : ι) (size : ℕ) (saved : Bool)

variable {ι ε σ v : Type} [DecidableEq ι] (pos : ε → ℕ) (wants : ι → ε → Bool)
  (process : ι → σ → List ε → Option σ)

/-- One of the consumers. -/
def one (c : Consumers ι ε σ) (i : ι) : Consumer ε σ := ⟨c.log, c.mark i, c.store⟩

/-- The next batch of a consumer. -/
def batch (c : Consumers ι ε σ) (i : ι) (size : ℕ) : List ε := (c.one i).batch pos (wants i) size

/-- What a consumer has passed. -/
def passed (c : Consumers ι ε σ) (i : ι) : List ε := (c.one i).passed pos (wants i)

/-- What a consumer wants of the log. -/
def wanted (c : Consumers ι ε σ) (i : ι) : List ε := c.log.filter (wants i)

/-- The log grows at its end; a batch is worked in, if there is one and it can be. -/
def step (c : Consumers ι ε σ) : Action ι ε → Option (Consumers ι ε σ)
  | .grow es =>
    if InOrder pos (c.log ++ es) ∧ ∀ e ∈ es, 0 < pos e then some { c with log := c.log ++ es }
    else none
  | .deliver i size saved =>
    (c.batch pos wants i size).getLast?.bind fun last =>
      (process i c.store (c.batch pos wants i size)).map fun store =>
        { c with
          mark := if saved then Function.update c.mark i (pos last) else c.mark
          store }

/-- The log is in order, and the marks are on it. -/
structure Sound (c : Consumers ι ε σ) : Prop where
  one : ∀ i, (c.one i).Sound pos

/-- Consumers that have not been given anything. -/
structure Fresh (c : Consumers ι ε σ) : Prop where
  inOrder : InOrder pos c.log
  pos_pos : ∀ e ∈ c.log, 0 < pos e
  mark_eq : ∀ i, c.mark i = 0

variable {pos wants process} {c c' : Consumers ι ε σ} {a : Action ι ε} {as : List (Action ι ε)}
  {es : List ε} {i j : ι} {size : ℕ} {saved : Bool}

omit [DecidableEq ι] in
theorem Fresh.one (h : c.Fresh pos) (i : ι) : (c.one i).Fresh pos :=
  ⟨h.inOrder, h.pos_pos, h.mark_eq i⟩

omit [DecidableEq ι] in
theorem Fresh.sound (h : c.Fresh pos) : c.Sound pos := ⟨fun i => (h.one i).sound⟩

theorem step_grow (h : c.step pos wants process (.grow es) = some c') :
    InOrder pos (c.log ++ es) ∧ (∀ e ∈ es, 0 < pos e) ∧ c' = { c with log := c.log ++ es } := by
  by_cases hes : InOrder pos (c.log ++ es) ∧ ∀ e ∈ es, 0 < pos e
  · have hstep := (if_pos hes).symm.trans h
    exact ⟨hes.1, hes.2, (Option.some.inj hstep).symm⟩
  · exact absurd ((if_neg hes).symm.trans h) (Option.some_ne_none c').symm

theorem step_deliver (h : c.step pos wants process (.deliver i size saved) = some c') :
    ∃ hne : c.batch pos wants i size ≠ [],
      process i c.store (c.batch pos wants i size) = some c'.store ∧ c'.log = c.log
        ∧ c'.mark = if saved then
            Function.update c.mark i (pos ((c.batch pos wants i size).getLast hne))
          else c.mark := by
  obtain ⟨last, hlast, hstep⟩ := Option.bind_eq_some_iff.mp h
  obtain ⟨store, hstore, rfl⟩ := Option.map_eq_some_iff.mp hstep
  have hne : c.batch pos wants i size ≠ [] := by
    intro hnil
    rw [hnil] at hlast
    cases hlast
  rw [List.getLast?_eq_some_getLast hne] at hlast
  cases hlast
  exact ⟨hne, hstore, rfl, rfl⟩

/-- **What a consumer does with its own mark** is what a consumer with a store of its own
does. -/
theorem one_step_deliver (h : c.step pos wants process (.deliver i size saved) = some c')
    (store : σ) :
    (c.one i).step pos (wants i) (fun _ _ => store) (.deliver size saved)
      = some ⟨c'.log, c'.mark i, store⟩ := by
  obtain ⟨hne, -, hlog, hmark⟩ := step_deliver h
  refine Option.map_eq_some_iff.mpr
    ⟨_, List.getLast?_eq_some_getLast (l := (c.one i).batch pos (wants i) size) hne, ?_⟩
  rw [hlog, hmark]
  cases saved with
  | false => rfl
  | true =>
    show Consumer.mk _ _ _ = Consumer.mk _ (Function.update c.mark i _ i) _
    rw [Function.update_self]
    rfl

/-- A step of another leaves the mark of a consumer alone. -/
theorem mark_of_ne (h : c.step pos wants process (.deliver i size saved) = some c')
    (hj : j ≠ i) : c'.mark j = c.mark j := by
  obtain ⟨hne, -, -, hmark⟩ := step_deliver h
  rw [hmark]
  cases saved with
  | false => rfl
  | true => exact Function.update_of_ne hj _ _

theorem Sound.step (h : c.Sound pos) (hs : c.step pos wants process a = some c') :
    c'.Sound pos := by
  refine ⟨fun j => ?_⟩
  cases a with
  | grow es =>
    obtain ⟨hord, hpos, rfl⟩ := step_grow hs
    have hone : (c.one j).step pos (wants j) (fun s _ => s) (.grow es)
        = some { c.one j with log := c.log ++ es } := if_pos ⟨hord, hpos⟩
    exact (h.one j).step hone
  | deliver i size saved =>
    obtain ⟨-, -, hlog, -⟩ := step_deliver hs
    by_cases hj : j = i
    · subst hj
      have hone := (h.one j).step (one_step_deliver hs c'.store)
      exact hone
    · refine ⟨?_, ?_⟩
      · show InOrder pos c'.log
        rw [hlog]
        exact (h.one j).inOrder
      · show c'.mark j = 0 ∨ ∃ e ∈ c'.log, c'.mark j = pos e
        rw [hlog, mark_of_ne hs hj]
        exact (h.one j).mark_mem

/-- **What a step passes**: a batch whose mark is saved, for the consumer that it is of. -/
theorem Sound.passed_step (h : c.Sound pos) (hs : c.step pos wants process a = some c') (j : ι) :
    c'.passed pos wants j = c.passed pos wants j
      ++ match a with
        | .deliver i size true => if j = i then c.batch pos wants i size else []
        | _ => [] := by
  cases a with
  | grow es =>
    obtain ⟨hord, hpos, rfl⟩ := step_grow hs
    have hone : (c.one j).step pos (wants j) (fun s _ => s) (.grow es)
        = some { c.one j with log := c.log ++ es } := if_pos ⟨hord, hpos⟩
    exact (h.one j).passed_step hone
  | deliver i size saved =>
    obtain ⟨-, -, hlog, -⟩ := step_deliver hs
    by_cases hj : j = i
    · subst hj
      have hone := (h.one j).passed_step (one_step_deliver hs c'.store)
      cases saved with
      | false => exact hone
      | true =>
        show c'.passed pos wants j = c.passed pos wants j ++ if j = j then _ else _
        rw [if_pos rfl]
        exact hone
    · have hsame : c'.passed pos wants j = c.passed pos wants j := by
        show (upTo pos (c'.mark j) c'.log).filter (wants j)
          = (upTo pos (c.mark j) c.log).filter (wants j)
        rw [hlog, mark_of_ne hs hj]
      cases saved with
      | false => exact hsame.trans (List.append_nil _).symm
      | true =>
        show _ = _ ++ if j = i then _ else _
        rw [if_neg hj, List.append_nil]
        exact hsame

omit [DecidableEq ι] in
/-- A batch is what comes after what was passed. -/
theorem Sound.passed_append_batch (h : c.Sound pos) (i : ι) (size : ℕ) :
    c.passed pos wants i ++ c.batch pos wants i size <+: c.wanted wants i := by
  have hsplit : c.passed pos wants i ++ after pos (c.mark i) (c.log.filter (wants i))
      = c.wanted wants i := by
    unfold passed Consumer.passed
    rw [← upTo_filter]
    exact upTo_append_after ((h.one i).inOrder.filter _) _
  rw [← hsplit]
  exact (List.prefix_append_right_inj _).mpr (List.take_prefix _ _)

omit [DecidableEq ι] in
/-- Consumers that have been given everything have passed everything they want. -/
theorem passed_eq_wanted (h : ∀ e ∈ c.log, wants i e = true → pos e ≤ c.mark i) :
    c.passed pos wants i = c.wanted wants i :=
  Consumer.passed_eq_filter (c := c.one i) h

/-! ## What a cell shows -/

/-- **A cell shows the last write of a beginning**: each consumer has come through a
beginning of what it wants, and the cell is empty if none of these write it, and else it is
the last write of one of them. -/
structure Shows (pos : ε → ℕ) (wants : ι → ε → Bool) (f : ι → ε → Option v)
    (c : Consumers ι ε σ) (o : Option v) (reached : ι → List ε) : Prop where
  passed_prefix : ∀ i, c.passed pos wants i <+: reached i
  prefix_wanted : ∀ i, reached i <+: c.wanted wants i
  empty : o = none → ∀ i, lastWrite (f i) (reached i) = none
  written : ∀ x, o = some x → ∃ i, lastWrite (f i) (reached i) = some x

variable {f : ι → ε → Option v} {o : Option v} {reached : ι → List ε} {g : σ → Option v}

omit [DecidableEq ι] in
/-- Nothing has been written where nothing has been given. -/
theorem Fresh.shows (h : c.Fresh pos) : c.Shows pos wants f none fun _ => [] where
  passed_prefix i := by
    rw [show c.passed pos wants i = [] from (h.one i).passed_eq_nil]
  prefix_wanted _ := List.nil_prefix
  empty _ _ := lastWrite_nil
  written _ h := absurd h (Option.some_ne_none _).symm

/-- The log grows, and the cell shows what it has shown. -/
theorem Shows.grow (h : c.Shows pos wants f o reached) (hc : c.Sound pos)
    (hs : c.step pos wants process (.grow es) = some c') : c'.Shows pos wants f o reached where
  passed_prefix i := by
    rw [hc.passed_step hs, List.append_nil]
    exact h.passed_prefix i
  prefix_wanted i := by
    obtain ⟨-, -, rfl⟩ := step_grow hs
    refine (h.prefix_wanted i).trans ?_
    unfold wanted
    rw [List.filter_append]
    exact List.prefix_append _ _
  empty := h.empty
  written := h.written

/-- A consumer has come further, to the end of a batch at least. -/
theorem Shows.update (h : c.Shows pos wants f o reached) (hc : c.Sound pos)
    (hs : c.step pos wants process (.deliver i size saved) = some c') {ls : List ε}
    (hbatch : c.passed pos wants i ++ c.batch pos wants i size <+: ls)
    (hall : ls <+: c.wanted wants i) (j : ι) :
    c'.passed pos wants j <+: Function.update reached i ls j
      ∧ Function.update reached i ls j <+: c'.wanted wants j := by
  have hwanted : c'.wanted wants j = c.wanted wants j := by
    obtain ⟨-, -, hlog, -⟩ := step_deliver hs
    unfold wanted
    rw [hlog]
  rw [hc.passed_step hs, hwanted]
  by_cases hj : j = i
  · subst hj
    rw [Function.update_self]
    refine ⟨?_, hall⟩
    cases saved with
    | false => exact ((List.prefix_append_right_inj _).mpr List.nil_prefix).trans hbatch
    | true =>
      show _ ++ (if j = j then _ else _) <+: _
      rw [if_pos rfl]
      exact hbatch
  · rw [Function.update_of_ne hj]
    refine ⟨?_, h.prefix_wanted j⟩
    cases saved with
    | false =>
      rw [List.append_nil]
      exact h.passed_prefix j
    | true =>
      show _ ++ (if j = i then _ else _) <+: _
      rw [if_neg hj, List.append_nil]
      exact h.passed_prefix j

/-- **A batch is worked in**: the consumer that it is of has come to the end of it, or was
further on and none of it is written. -/
theorem Shows.deliver (h : c.Shows pos wants f o reached) (hc : c.Sound pos)
    (hs : c.step pos wants process (.deliver i size saved) = some c') :
    ∃ reached', c'.Shows pos wants f
      ((lastWrite (f i) (c.batch pos wants i size)).or o) reached' := by
  have hbatch : c.passed pos wants i ++ c.batch pos wants i size <+: c.wanted wants i :=
    hc.passed_append_batch i size
  cases hlast : lastWrite (f i) (c.batch pos wants i size) with
  | some x =>
    have hupdate := h.update hc hs List.prefix_rfl hbatch
    refine ⟨_, fun j => (hupdate j).1, fun j => (hupdate j).2,
      fun hnone => absurd hnone (Option.some_ne_none x), fun y hy => ⟨i, ?_⟩⟩
    rw [Function.update_self, lastWrite_append, hlast]
    exact hy
  | none =>
    obtain ⟨ls, hle, hble, hall, hls⟩ :=
      exists_longer (h.prefix_wanted i) hbatch (h.passed_prefix i) hlast
    have hupdate := h.update hc hs hble hall
    have hsame : ∀ j, lastWrite (f j) (Function.update reached i ls j)
        = lastWrite (f j) (reached j) := by
      intro j
      by_cases hj : j = i
      · subst hj
        rw [Function.update_self, hls]
      · rw [Function.update_of_ne hj]
    rw [Option.none_or]
    refine ⟨_, fun j => (hupdate j).1, fun j => (hupdate j).2,
      fun hnone j => (hsame j).trans (h.empty hnone j), fun x hx => ?_⟩
    obtain ⟨j, hj⟩ := h.written x hx
    exact ⟨j, (hsame j).trans hj⟩

/-- **Through a run, a cell that each consumer overwrites or leaves alone shows the last
write of a beginning.** The stores may keep an invariant that this depends on. -/
theorem Fresh.shows_follow {I : σ → Prop} {g : σ → Option v} (h : c.Fresh pos)
    (hI : I c.store) (hempty : g c.store = none)
    (hcell : ∀ i s es s', I s → process i s es = some s' →
      I s' ∧ g s' = (lastWrite (f i) es).or (g s))
    (hs : Run.follow (Consumers.step pos wants process) c as = some c') :
    ∃ reached, c'.Shows pos wants f (g c'.store) reached := by
  refine (Run.invariant_of_follow (I := fun d : Consumers ι ε σ => d.Sound pos ∧ I d.store
    ∧ ∃ reached, d.Shows pos wants f (g d.store) reached) (fun d a d' hd hstep => ?_) hs
    ⟨h.sound, hI, _, hempty ▸ h.shows⟩).2.2
  obtain ⟨hsound, hId, reached, hshows⟩ := hd
  refine ⟨hsound.step hstep, ?_⟩
  cases a with
  | grow es =>
    have hgrow := hshows.grow hsound hstep
    obtain ⟨-, -, rfl⟩ := step_grow hstep
    exact ⟨hId, reached, hgrow⟩
  | deliver i size saved =>
    obtain ⟨-, hprocess, -, -⟩ := step_deliver hstep
    obtain ⟨hId', hstore⟩ := hcell i _ _ _ hId hprocess
    rw [hstore]
    exact ⟨hId', hshows.deliver hsound hstep⟩

omit [DecidableEq ι] in
/-- **Where everything has been given**, a cell is empty if nothing is written to it, and
else it is the last write of one of the consumers. -/
theorem Shows.done (h : c.Shows pos wants f o reached)
    (hdone : ∀ i, c.passed pos wants i = c.wanted wants i) :
    (o = none ↔ ∀ i, lastWrite (f i) (c.wanted wants i) = none)
      ∧ ∀ x, o = some x → ∃ i, lastWrite (f i) (c.wanted wants i) = some x := by
  have hreached : ∀ i, reached i = c.wanted wants i := fun i =>
    (h.prefix_wanted i).eq_of_length_le ((hdone i) ▸ (h.passed_prefix i).length_le)
  have hwritten : ∀ x, o = some x → ∃ i, lastWrite (f i) (c.wanted wants i) = some x := by
    intro x hx
    obtain ⟨i, hi⟩ := h.written x hx
    exact ⟨i, hreached i ▸ hi⟩
  refine ⟨⟨fun hnone i => hreached i ▸ h.empty hnone i, fun hnone => ?_⟩, hwritten⟩
  cases o with
  | none => rfl
  | some x =>
    obtain ⟨i, hi⟩ := hwritten x rfl
    exact absurd hi (by rw [hnone i]; exact (Option.some_ne_none x).symm)

end Consumers

end Feed
