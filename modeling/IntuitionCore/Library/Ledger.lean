import IntuitionCore.Library.Result
import Mathlib.Data.List.Basic

/-!
# Ledgers

A ledger says what a family of rows *is*: each event of a log belongs to at
most one key, and the row of a key is obtained by applying the events of that
key, in their order, to the row nothing has happened to. It is the meaning of
a read model that is maintained event by event, and what such a read model has
to agree with however its events were delivered.

The last section is about events that are delivered again. Applying a stretch
of a log twice is the same as applying it once as soon as, for the events in
it, an application is made irrelevant by a later one of the same event.
-/

/-- A family of rows maintained event by event. -/
structure Ledger (ε κ ρ : Type) where
  /-- The key whose row an event belongs to. -/
  key : ε → Option κ
  /-- The row nothing has happened to. -/
  init : ρ
  /-- The row after an event. -/
  step : ρ → ε → ρ

namespace Ledger

variable {ε κ ρ : Type} [DecidableEq κ] (L : Ledger ε κ ρ) {k : κ} {r : ρ} {es fs : List ε}

/-- An event belongs to a key. -/
def concerns (k : κ) (e : ε) : Bool := L.key e = some k

/-- The row of a key after a list of events. -/
def apply (k : κ) (r : ρ) (es : List ε) : ρ := (es.filter (L.concerns k)).foldl L.step r

/-- The row of a key in a log, each event applied once. -/
def row (es : List ε) (k : κ) : ρ := L.apply k L.init es

@[simp] theorem apply_nil : L.apply k r [] = r := rfl

theorem apply_append : L.apply k r (es ++ fs) = L.apply k (L.apply k r es) fs := by
  unfold apply
  rw [List.filter_append, List.foldl_append]

theorem apply_cons (e : ε) :
    L.apply k r (e :: es) = L.apply k (if L.concerns k e then L.step r e else r) es := by
  unfold apply
  by_cases he : L.concerns k e = true <;> simp [he]

/-- What each of some events keeps, they keep one after the other. -/
theorem apply_invariant {P : ρ → Prop}
    (h : ∀ e ∈ es, L.concerns k e = true → ∀ r, P r → P (L.step r e)) (hr : P r) :
    P (L.apply k r es) := by
  induction es generalizing r with
  | nil => exact hr
  | cons e es ih =>
    rw [apply_cons]
    refine ih (fun f hf => h f (List.mem_cons_of_mem _ hf)) ?_
    split
    · next hk => exact h e List.mem_cons_self hk r hr
    · exact hr

/-- Events that leave a row as it is leave it so one after the other. -/
theorem apply_eq_self (h : ∀ e ∈ es, L.concerns k e = true → L.step r e = r) :
    L.apply k r es = r :=
  L.apply_invariant (P := fun r' => r' = r) (fun e he hk r' hr' => by rw [hr', h e he hk]) rfl

/-- What every event keeps, and one of them brings about, holds of the row in
the end. -/
theorem apply_of_mem {P : ρ → Prop} (hkeep : ∀ r e, P r → P (L.step r e))
    (h : P r ∨ ∃ e ∈ es, L.concerns k e = true ∧ ∀ r, P (L.step r e)) : P (L.apply k r es) := by
  induction es generalizing r with
  | nil => exact h.resolve_right fun ⟨e, he, _⟩ => absurd he List.not_mem_nil
  | cons e es ih =>
    rw [apply_cons]
    refine ih ?_
    obtain h | ⟨f, hf, hk, hP⟩ := h
    · refine .inl ?_
      split
      · exact hkeep r e h
      · exact h
    · obtain rfl | hf := List.mem_cons.mp hf
      · rw [if_pos hk]
        exact .inl (hP r)
      · exact .inr ⟨f, hf, hk, hP⟩

/-- **What every step does to a row, a loop does to it**: a loop whose steps
apply one event each to the row of a key, if it is theirs, applies all of
them. -/
theorem foldlM_row {σ err : Type} {f : σ → ε → Except err σ} {v : σ → ρ} {own : Bool}
    (hf : ∀ s e s', f s e = .ok s' →
      v s' = if own && L.concerns k e then L.step (v s) e else v s)
    {s s' : σ} (h : es.foldlM f s = .ok s') :
    v s' = if own then L.apply k (v s) es else v s := by
  cases own with
  | false => exact Result.foldlM_keeps hf h
  | true =>
    simp only [Bool.true_and] at hf
    induction es generalizing s with
    | nil => cases h; rfl
    | cons e es ih =>
      obtain ⟨s₁, hs₁, hs'⟩ := Result.bind_eq_ok.mp h
      rw [ih hs', hf s e s₁ hs₁, if_pos rfl, if_pos rfl, apply_cons]

/-- What every step does to a row, a loop does to it; the steps do not fail. -/
theorem foldl_row {σ : Type} {f : σ → ε → σ} {v : σ → ρ} {own : Bool}
    (hf : ∀ s e, v (f s e) = if own && L.concerns k e then L.step (v s) e else v s)
    (s : σ) : v (es.foldl f s) = if own then L.apply k (v s) es else v s := by
  refine L.foldlM_row (f := fun s e => (.ok (f s e) : Except Unit σ)) (fun s e s' h => ?_)
    (List.foldlM_pure (m := Except Unit))
  cases h
  exact hf s e

/-- **What every batch does to a row, batches do to it**, one after the other. -/
theorem foldlM_batches_row {σ err : Type} {f : σ → List ε → Except err σ} {v : σ → ρ} {own : Bool}
    (hf : ∀ s batch s', f s batch = .ok s' → v s' = if own then L.apply k (v s) batch else v s)
    {batches : List (List ε)} {s s' : σ} (h : batches.foldlM f s = .ok s') :
    v s' = if own then L.apply k (v s) batches.flatten else v s := by
  induction batches generalizing s with
  | nil =>
    cases h
    exact (ite_self _).symm
  | cons batch batches ih =>
    obtain ⟨s₁, hs₁, hs'⟩ := Result.bind_eq_ok.mp h
    rw [ih hs', hf s batch s₁ hs₁, List.flatten_cons, apply_append]
    cases own <;> rfl

/-- Events that are dropped from a list do not count if they concern another
key. -/
theorem apply_filter {p : ε → Bool} (hp : ∀ e ∈ es, L.concerns k e = true → p e = true) :
    L.apply k r (es.filter p) = L.apply k r es := by
  unfold apply
  rw [List.filter_filter]
  congr 1
  refine List.filter_congr fun e he => ?_
  by_cases hk : L.concerns k e = true
  · rw [hk, hp e he hk]
    rfl
  · rw [Bool.not_eq_true] at hk
    rw [hk, Bool.false_and]

/-- A ledger of other events, read as the events of this one. -/
def comap {δ : Type} (f : δ → ε) : Ledger δ κ ρ where
  key e := L.key (f e)
  init := L.init
  step r e := L.step r (f e)

theorem comap_apply {δ : Type} (f : δ → ε) (es : List δ) :
    (L.comap f).apply k r es = L.apply k r (es.map f) := by
  unfold apply
  rw [List.filter_map, List.foldl_map]
  rfl

/-- A ledger of some columns of the rows. -/
def columns {γ : Type} (f : ρ → γ) (step : γ → ε → γ) : Ledger ε κ γ where
  key := L.key
  init := f L.init
  step := step

/-- Columns that are computed from columns are the columns of the rows. -/
theorem columns_apply {γ : Type} {f : ρ → γ} {step : γ → ε → γ}
    (h : ∀ r e, f (L.step r e) = step (f r) e) :
    (L.columns f step).apply k (f r) es = f (L.apply k r es) := by
  show ((es.filter (L.concerns k)).foldl step (f r)) = f ((es.filter (L.concerns k)).foldl L.step r)
  induction es.filter (L.concerns k) generalizing r with
  | nil => rfl
  | cons e es ih => rw [List.foldl_cons, List.foldl_cons, ← h, ih]

/-! ## Events delivered again -/

/-- Among the events that satisfy `P`, an application is made irrelevant by a
later one of the same event, whether at once or after another event. -/
structure Absorbs (P : ε → Prop) : Prop where
  /-- Applying an event twice is applying it once. -/
  twice : ∀ e, P e → ∀ r, L.step (L.step r e) e = L.step r e
  /-- Applying an event before another one and after it is applying it after. -/
  around : ∀ e f, P e → P f → ∀ r,
    L.step (L.step (L.step r e) f) e = L.step (L.step r f) e

variable {L} {P : ε → Prop}

omit [DecidableEq κ] in
/-- An application before a list in which the same event occurs is
irrelevant. -/
theorem Absorbs.foldl_step (hL : L.Absorbs P) {e : ε} {l : List ε} (hl : ∀ f ∈ l, P f)
    (he : e ∈ l) (r : ρ) : l.foldl L.step (L.step r e) = l.foldl L.step r := by
  induction l generalizing r with
  | nil => cases he
  | cons f l ih =>
    have hf := hl f List.mem_cons_self
    have hl' : ∀ g ∈ l, P g := fun g hg => hl g (List.mem_cons_of_mem _ hg)
    rw [List.foldl_cons, List.foldl_cons]
    by_cases hmem : e ∈ l
    · -- the later occurrence absorbs both the early one and the one around `f`
      rw [← ih hl' hmem (L.step (L.step r e) f),
        hL.around e f (hl e (List.mem_cons_of_mem _ hmem)) hf r, ih hl' hmem]
    · obtain rfl : e = f := (List.mem_cons.mp he).resolve_right hmem
      rw [hL.twice e hf r]

omit [DecidableEq κ] in
/-- A list applied before one that contains all its events is irrelevant. -/
theorem Absorbs.foldl_foldl (hL : L.Absorbs P) {l m : List ε} (hm : ∀ f ∈ m, P f)
    (hl : ∀ e ∈ l, e ∈ m) (r : ρ) :
    m.foldl L.step (l.foldl L.step r) = m.foldl L.step r := by
  induction l generalizing r with
  | nil => rfl
  | cons e l ih =>
    rw [List.foldl_cons, ih (fun f hf => hl f (List.mem_cons_of_mem _ hf)),
      hL.foldl_step hm (hl e List.mem_cons_self)]

/-- **A stretch of a log delivered again changes nothing**, if the events it
has of the key absorb each other: what was applied once is applied again, and
the log goes on. -/
theorem Absorbs.apply_again (hL : L.Absorbs P)
    (hP : ∀ e ∈ es, L.concerns k e = true → P e) (r : ρ) :
    L.apply k (L.apply k r es) (es ++ fs) = L.apply k r (es ++ fs) := by
  rw [apply_append, apply_append]
  congr 1
  refine hL.foldl_foldl (fun f hf => ?_) (fun e he => he) r
  rw [List.mem_filter] at hf
  exact hP f hf.1 hf.2

/-- A stretch of a log applied twice is the stretch applied once. -/
theorem Absorbs.apply_apply (hL : L.Absorbs P)
    (hP : ∀ e ∈ es, L.concerns k e = true → P e) (r : ρ) :
    L.apply k (L.apply k r es) es = L.apply k r es := by
  have h : L.apply k (L.apply k r es) (es ++ []) = L.apply k r (es ++ []) := hL.apply_again hP r
  rw [List.append_nil] at h
  exact h

omit [DecidableEq κ] in
/-- Events that absorb each other do so under another reading of them. -/
theorem Absorbs.comap {δ : Type} (hL : L.Absorbs P) (f : δ → ε) :
    (L.comap f).Absorbs fun d => P (f d) where
  twice e he r := hL.twice (f e) he r
  around e e' he he' r := hL.around (f e) (f e') he he' r

end Ledger
