import IntuitionCore.Library.Ledger
import Mathlib.Logic.Function.Basic
import Mathlib.Data.List.Pairwise
import Mathlib.Data.Nat.Basic
import Mathlib.Order.Basic

/-!
# Reading an ordered log from a mark

A log is a list of events in order of their positions. A reader keeps a mark,
polls a bounded number of the events it wants that lie after the mark, applies
them, and moves the mark to the last of them. The two stretches of the log
that a mark separates are `upTo` and `after`; a poll is a prefix of the second,
and moving the mark moves exactly that prefix to the first.

Several readers share the rows of a ledger by owning different keys. As long
as each key is owned by the reader of one mark, its row is the row of the log
up to that mark: this is the invariant of the development, and it survives the
growth of the log, the batches of all readers in any order, and a change of
owners at which the marks agree.
-/

namespace Feed

variable {ε κ ρ ν : Type} {pos : ε → ℕ} {log es : List ε} {c c' n : ℕ} {wants : ε → Bool}

/-- The positions of a log increase. -/
def InOrder (pos : ε → ℕ) (log : List ε) : Prop :=
  log.Pairwise fun a b => pos a < pos b

instance (pos : ε → ℕ) (log : List ε) : Decidable (InOrder pos log) :=
  inferInstanceAs (Decidable (log.Pairwise fun a b => pos a < pos b))

/-- The events of a log up to a mark. -/
def upTo (pos : ε → ℕ) (c : ℕ) (log : List ε) : List ε :=
  log.filter fun e => pos e ≤ c

/-- The events of a log after a mark. -/
def after (pos : ε → ℕ) (c : ℕ) (log : List ε) : List ε :=
  log.filter fun e => c < pos e

/-- The wanted events of a log after a mark, at most `n` of them. -/
def poll (pos : ε → ℕ) (wants : ε → Bool) (c n : ℕ) (log : List ε) : List ε :=
  (after pos c (log.filter wants)).take n

theorem InOrder.filter (h : InOrder pos log) (p : ε → Bool) : InOrder pos (log.filter p) :=
  List.Pairwise.filter p h

/-- An event of a log is known by its position. -/
theorem InOrder.eq_of_pos_eq (h : InOrder pos log) {e f : ε} (he : e ∈ log) (hf : f ∈ log)
    (hpos : pos e = pos f) : e = f := by
  induction log with
  | nil => cases he
  | cons g log ih =>
    obtain ⟨hg, hlog⟩ := List.pairwise_cons.mp h
    obtain rfl | he' := List.mem_cons.mp he <;> obtain rfl | hf' := List.mem_cons.mp hf
    · rfl
    · exact absurd hpos (hg f hf').ne
    · exact absurd hpos (hg e he').ne'
    · exact ih hlog he' hf'

/-- A mark separates a log into two stretches. -/
theorem upTo_append_after (h : InOrder pos log) (c : ℕ) :
    upTo pos c log ++ after pos c log = log := by
  induction log with
  | nil => rfl
  | cons e log ih =>
    obtain ⟨he, hlog⟩ := List.pairwise_cons.mp h
    by_cases hc : pos e ≤ c
    · have hc' : ¬ c < pos e := not_lt.mpr hc
      simpa [upTo, after, hc, hc'] using ih hlog
    · -- everything after an event past the mark is past the mark
      have hc' : c < pos e := not_le.mp hc
      have hnil : upTo pos c log = [] :=
        List.filter_eq_nil_iff.mpr fun f hf => by
          simpa using hc'.trans (he f hf)
      have hall : after pos c log = log :=
        List.filter_eq_self.mpr fun f hf => by
          simpa using hc'.trans (he f hf)
      unfold upTo after at *
      rw [List.filter_cons_of_neg (by simpa using hc'), List.filter_cons_of_pos (by simpa),
        hnil, hall]
      rfl

theorem upTo_append : upTo pos c (log ++ es) = upTo pos c log ++ upTo pos c es :=
  List.filter_append _ _

theorem upTo_eq_nil (h : ∀ e ∈ log, c < pos e) : upTo pos c log = [] :=
  List.filter_eq_nil_iff.mpr fun e he => by simpa using h e he

theorem upTo_eq_self (h : ∀ e ∈ log, pos e ≤ c) : upTo pos c log = log :=
  List.filter_eq_self.mpr fun e he => by simpa using h e he

theorem upTo_filter (p : ε → Bool) : upTo pos c (log.filter p) = (upTo pos c log).filter p := by
  unfold upTo
  rw [List.filter_filter, List.filter_filter]
  exact List.filter_congr fun e _ => Bool.and_comm _ _

/-- The positions of an ordered list are at most that of its last element. -/
theorem InOrder.le_getLast (h : InOrder pos log) (hne : log ≠ []) {e : ε} (he : e ∈ log) :
    pos e ≤ pos (log.getLast hne) :=
  (h.imp le_of_lt).rel_getLast_of_rel_getLast_getLast he le_rfl

/-- **Moving a mark to the end of a poll moves exactly the poll.** -/
theorem upTo_getLast_poll (h : InOrder pos log) (hne : poll pos wants c n log ≠ []) :
    (upTo pos (pos ((poll pos wants c n log).getLast hne)) log).filter wants
      = (upTo pos c log).filter wants ++ poll pos wants c n log := by
  have hW := h.filter wants
  set W := log.filter wants with hWdef
  obtain ⟨rest, hrest⟩ : ∃ rest, after pos c W = poll pos wants c n log ++ rest :=
    ⟨(after pos c W).drop n, (List.take_append_drop n _).symm⟩
  set B := poll pos wants c n log with hB
  have hsplit : upTo pos c W ++ (B ++ rest) = W := by
    rw [← hrest, upTo_append_after hW]
  have hord : InOrder pos (B ++ rest) := hrest ▸ hW.filter _
  have hlast : B.getLast hne ∈ B := List.getLast_mem hne
  have hpast : ∀ e ∈ B, c < pos e := by
    intro e he
    have hmem : e ∈ after pos c W := hrest ▸ List.mem_append_left _ he
    simpa [after] using (List.mem_filter.mp hmem).2
  have hle : ∀ e ∈ upTo pos c W, pos e ≤ pos (B.getLast hne) := by
    intro e he
    have hec : pos e ≤ c := by simpa [upTo] using (List.mem_filter.mp he).2
    exact hec.trans (hpast _ hlast).le
  have hB' : ∀ e ∈ B, pos e ≤ pos (B.getLast hne) := fun e he =>
    InOrder.le_getLast (List.pairwise_append.mp hord).1 hne he
  have hrest' : ∀ e ∈ rest, pos (B.getLast hne) < pos e := fun e he =>
    (List.pairwise_append.mp hord).2.2 _ hlast _ he
  rw [← upTo_filter, ← upTo_filter, ← hWdef]
  conv_lhs => rw [← hsplit]
  rw [upTo_append, upTo_append, upTo_eq_self hle, upTo_eq_self hB', upTo_eq_nil hrest',
    List.append_nil]

/-- Where every wanted event lies up to the mark, there is nothing to poll. -/
theorem poll_eq_nil (h : ∀ e ∈ log, wants e = true → pos e ≤ c) : poll pos wants c n log = [] := by
  have hnil : after pos c (log.filter wants) = [] :=
    List.filter_eq_nil_iff.mpr fun e he => by
      obtain ⟨hmem, hwant⟩ := List.mem_filter.mp he
      simpa using h e hmem hwant
  unfold poll
  rw [hnil, List.take_nil]

/-! ## Readers sharing the rows of a ledger -/

/-- A reader: the name of its mark, the events it wants, and how many of them
it polls at once. -/
structure Reader (ε ν : Type) where
  /-- The name the reader keeps its mark under. -/
  name : ν
  /-- The events the reader wants. -/
  wants : ε → Bool
  /-- The most events of one poll. -/
  size : ℕ

/-- A log, the marks on it, and the rows its readers maintain. -/
structure State (ε κ ρ ν : Type) where
  /-- The events so far. -/
  log : List ε
  /-- The mark of each name. -/
  mark : ν → ℕ
  /-- The name whose reader owns a key; `none` is a key nobody maintains. -/
  owner : κ → Option ν
  /-- The rows. -/
  rows : κ → ρ

/-- The events of a log up to the mark of an owner; none, without an owner. -/
def upToOwner (pos : ε → ℕ) (log : List ε) (mark : ν → ℕ) : Option ν → List ε
  | none => []
  | some c => upTo pos (mark c) log

section Exact

variable [DecidableEq κ] (pos) (L : Ledger ε κ ρ)

/-- What a reader would be given now. -/
def State.pollOf (s : State ε κ ρ ν) (w : Reader ε ν) : List ε :=
  poll pos w.wants (s.mark w.name) w.size s.log

/-- The events a key has been maintained through: those up to the mark of its
owner. -/
def State.processed (s : State ε κ ρ ν) (k : κ) : List ε :=
  upToOwner pos s.log s.mark (s.owner k)

/-- A reader is given every event that concerns a key it owns. -/
def State.Covers (s : State ε κ ρ ν) (w : Reader ε ν) : Prop :=
  ∀ k, s.owner k = some w.name → ∀ e ∈ s.log, L.concerns k e = true → w.wants e = true

/-- **Every row is its ledger's row of the events its key has been maintained
through.** The log is in order, and the marks lie on it. -/
structure State.Exact (s : State ε κ ρ ν) : Prop where
  /-- The log is in order. -/
  inOrder : InOrder pos s.log
  /-- No event lies at the initial mark. -/
  pos_pos : ∀ e ∈ s.log, 0 < pos e
  /-- A mark is initial or the position of an event. -/
  mark_mem : ∀ c, s.mark c = 0 ∨ ∃ e ∈ s.log, s.mark c = pos e
  /-- The rows are exact. -/
  rows_eq : ∀ k, s.rows k = L.row (s.processed pos k) k

variable {pos L} {s s' : State ε κ ρ ν} {w : Reader ε ν} {k : κ}

/-- Before anything is read, every row is the initial one. -/
theorem State.exact_of_start {owner : κ → Option ν} (hord : InOrder pos log)
    (hpos : ∀ e ∈ log, 0 < pos e) :
    State.Exact pos L (⟨log, fun _ => 0, owner, fun _ => L.init⟩ : State ε κ ρ ν) where
  inOrder := hord
  pos_pos := hpos
  mark_mem _ := .inl rfl
  rows_eq k := by
    show L.init = L.row (upToOwner pos log (fun _ => 0) (owner k)) k
    cases owner k with
    | none => rfl
    | some c => rw [upToOwner, upTo_eq_nil hpos]; rfl

/-- Appended events lie after every mark. -/
theorem State.Exact.mark_lt (h : s.Exact pos L) (hord : InOrder pos (s.log ++ es))
    (hpos : ∀ e ∈ es, 0 < pos e) (c : ν) {e : ε} (he : e ∈ es) : s.mark c < pos e := by
  obtain hc | ⟨f, hf, hc⟩ := h.mark_mem c
  · exact hc ▸ hpos e he
  · exact hc ▸ (List.pairwise_append.mp hord).2.2 f hf e he

/-- The growth of the log leaves what lies up to the marks alone. -/
theorem State.Exact.upToOwner_grow (h : s.Exact pos L) (hord : InOrder pos (s.log ++ es))
    (hpos : ∀ e ∈ es, 0 < pos e) (o : Option ν) :
    upToOwner pos (s.log ++ es) s.mark o = upToOwner pos s.log s.mark o := by
  cases o with
  | none => rfl
  | some c =>
    rw [upToOwner, upTo_append, upTo_eq_nil fun e he => h.mark_lt hord hpos c he,
      List.append_nil]
    rfl

/-- Applying a poll takes the row of what lies up to the mark to the row of
what lies up to the end of the poll. -/
theorem row_upTo_getLast (hord : InOrder pos s.log) (hcov : s.Covers L w)
    (hk : s.owner k = some w.name) (hne : s.pollOf pos w ≠ []) :
    L.row (upTo pos (pos ((s.pollOf pos w).getLast hne)) s.log) k
      = L.apply k (L.row (upTo pos (s.mark w.name) s.log) k) (s.pollOf pos w) := by
  have hwant : ∀ c, L.row (upTo pos c s.log) k = L.row ((upTo pos c s.log).filter w.wants) k :=
    fun c => (L.apply_filter fun e he hc =>
      hcov k hk e (List.mem_filter.mp he).1 hc).symm
  rw [hwant]
  show L.row ((upTo pos (pos ((poll pos w.wants _ _ _).getLast hne)) s.log).filter w.wants) k = _
  rw [upTo_getLast_poll hord hne, hwant, Ledger.row, Ledger.apply_append]
  rfl

/-- Where the owner of a key has read every event that concerns it, its row is
its ledger's row of the whole log. -/
theorem State.Exact.row_of_read (h : s.Exact pos L) {c : ν} (hk : s.owner k = some c)
    (hread : ∀ e ∈ s.log, L.concerns k e = true → pos e ≤ s.mark c) :
    s.rows k = L.row s.log k := by
  rw [h.rows_eq k, State.processed, hk]
  exact L.apply_filter fun e he hc => by simpa using hread e he hc

end Exact

/-! ## Runs of readers -/

section Runs

variable [DecidableEq κ] [DecidableEq ν] (pos) (L : Ledger ε κ ρ)

/-- The state after a reader has applied a batch to the keys it owns. -/
def State.applyBatch (s : State ε κ ρ ν) (name : ν) (batch : List ε) : State ε κ ρ ν :=
  { s with
    rows := fun k => if s.owner k = some name then L.apply k (s.rows k) batch else s.rows k }

/-- The state after a mark has been moved. -/
def State.setMark (s : State ε κ ρ ν) (name : ν) (c : ℕ) : State ε κ ρ ν :=
  { s with mark := fun c' => if c' = name then c else s.mark c' }

/-- The log grows, a reader applies a batch and moves its mark, or keys change
owners. -/
inductive Step : State ε κ ρ ν → State ε κ ρ ν → Prop
  /-- Events are appended to the log. -/
  | grow {s : State ε κ ρ ν} (es : List ε) (hord : InOrder pos (s.log ++ es))
      (hpos : ∀ e ∈ es, 0 < pos e) : Step s { s with log := s.log ++ es }
  /-- A reader applies what it polls to the keys it owns, and marks the last of it. -/
  | batch {s : State ε κ ρ ν} (w : Reader ε ν) (hcov : s.Covers L w)
      (hne : s.pollOf pos w ≠ []) :
      Step s ((s.applyBatch L w.name (s.pollOf pos w)).setMark w.name
        (pos ((s.pollOf pos w).getLast hne)))
  /-- Keys are given to other owners, whose marks say the same of them. -/
  | reassign {s : State ε κ ρ ν} (owner : κ → Option ν)
      (h : ∀ k, (upToOwner pos s.log s.mark (owner k)).filter (L.concerns k)
        = (s.processed pos k).filter (L.concerns k)) : Step s { s with owner }

variable {pos L} {s s' : State ε κ ρ ν} {w : Reader ε ν} {k : κ}

omit [DecidableEq κ] in
/-- The mark of another name stays, and so does what lies up to it. -/
theorem upToOwner_setMark_of_ne {name : ν} {o : Option ν} (h : o ≠ some name) (b : ℕ) :
    upToOwner pos s.log (s.setMark name b).mark o = upToOwner pos s.log s.mark o := by
  cases o with
  | none => rfl
  | some c =>
    have hc : c ≠ name := fun hc => h (hc ▸ rfl)
    rw [upToOwner, State.setMark]
    show upTo pos (if c = name then b else s.mark c) s.log = _
    rw [if_neg hc]
    rfl

/-- **A step keeps the rows exact.** -/
theorem State.Exact.step (h : s.Exact pos L) (hs : Step pos L s s') : s'.Exact pos L := by
  cases hs with
  | grow es hord hpos =>
    refine ⟨hord, fun e he => ?_, fun c => ?_, fun k => ?_⟩
    · obtain he | he := List.mem_append.mp he
      · exact h.pos_pos e he
      · exact hpos e he
    · exact (h.mark_mem c).imp_right fun ⟨e, he, hc⟩ => ⟨e, List.mem_append_left _ he, hc⟩
    · rw [State.processed, h.upToOwner_grow hord hpos]
      exact h.rows_eq k
  | batch w hcov hne =>
    refine ⟨h.inOrder, h.pos_pos, fun c => ?_, fun k => ?_⟩
    · show (if c = w.name then _ else _) = 0 ∨ ∃ e ∈ s.log, (if c = w.name then _ else _) = pos e
      by_cases hc : c = w.name
      · refine .inr ⟨_, ?_, if_pos hc⟩
        exact List.mem_of_mem_filter
          (List.mem_of_mem_filter (List.mem_of_mem_take (List.getLast_mem hne)))
      · rw [if_neg hc]
        exact h.mark_mem c
    · show (if s.owner k = some w.name then L.apply k (s.rows k) (s.pollOf pos w) else s.rows k)
        = L.row (upToOwner pos s.log (s.setMark w.name _).mark (s.owner k)) k
      by_cases hk : s.owner k = some w.name
      · rw [if_pos hk, h.rows_eq k, State.processed, hk]
        show _ = L.row (upTo pos (if w.name = w.name then _ else _) s.log) k
        rw [if_pos rfl, row_upTo_getLast h.inOrder hcov hk hne]
        rfl
      · rw [if_neg hk, upToOwner_setMark_of_ne hk]
        exact h.rows_eq k
  | reassign owner hsame =>
    refine ⟨h.inOrder, h.pos_pos, h.mark_mem, fun k => ?_⟩
    show s.rows k = _
    rw [h.rows_eq k]
    unfold Ledger.row Ledger.apply
    rw [← hsame k]
    rfl

end Runs

end Feed
