import Mathlib.Logic.Basic

/-!
# Fallible computations

A fallible function is a chain of `Except` steps, and what a proof wants from
a chain that returned is the value each of its steps returned. The lemmas of
this module turn `… = .ok b` into that list of values: one lemma for a bind,
one for an option promoted to a result, one for a check that returns nothing.
They are the simp set with which every function of the development is
inverted once, and never unfolded again.
-/

namespace Result

variable {ε α β : Type}

/-- The value of an option, or the error given for its absence. -/
def okOr (o : Option α) (e : ε) : Except ε α :=
  match o with
  | some a => .ok a
  | none => .error e

/-- A chain of two steps returns what its second step returns, on a value
the first one returned. -/
@[simp] theorem bind_eq_ok {x : Except ε α} {f : α → Except ε β} {b : β} :
    (x >>= f) = .ok b ↔ ∃ a, x = .ok a ∧ f a = .ok b := by
  cases x with
  | error e => exact ⟨nofun, fun ⟨_, h, _⟩ => nomatch h⟩
  | ok a =>
    refine ⟨fun h => ⟨a, rfl, h⟩, ?_⟩
    rintro ⟨a', h, hf⟩
    cases h
    exact hf

/-- A chain whose first step returned is the rest of the chain. -/
theorem ok_bind (a : α) (f : α → Except ε β) : ((.ok a : Except ε α) >>= f) = f a := rfl

/-- A chain whose first step failed has failed. -/
theorem error_bind (e : ε) (f : α → Except ε β) :
    ((.error e : Except ε α) >>= f) = .error e := rfl

@[simp] theorem okOr_eq_ok {o : Option α} {e : ε} {a : α} :
    okOr o e = .ok a ↔ o = some a := by
  cases o with
  | none => exact ⟨nofun, nofun⟩
  | some b => simp [okOr]

/-- A chain whose errors are renamed returns what it returned. -/
@[simp] theorem mapError_eq_ok {ε' : Type} {f : ε → ε'} {x : Except ε α} {a : α} :
    x.mapError f = .ok a ↔ x = .ok a := by
  cases x with
  | ok b =>
    show (.ok b : Except ε' α) = .ok a ↔ _
    rw [Except.ok.injEq, Except.ok.injEq]
  | error e =>
    show (.error (f e) : Except ε' α) = .ok a ↔ _
    exact iff_of_false (fun h => by cases h) fun h => by cases h

/-- A chain whose errors are forgotten returns what it returned. -/
@[simp] theorem toOption_eq_some {x : Except ε α} {a : α} :
    x.toOption = some a ↔ x = .ok a := by
  cases x <;> simp [Except.toOption]

/-- A check that returns nothing passes exactly when its bad case does not
hold. -/
@[simp] theorem ite_error_eq_ok {p : Prop} [Decidable p] {e : ε} {a b : α} :
    (if p then (.error e : Except ε α) else .ok a) = .ok b ↔ ¬ p ∧ a = b := by
  by_cases hp : p <;> simp [hp]

/-! ## Loops -/

variable {σ : Type}

/-- **What every step of a loop keeps, the loop keeps.** -/
theorem foldlM_keeps {f : σ → α → Except ε σ} {g : σ → β}
    (hf : ∀ s a s', f s a = .ok s' → g s' = g s) {as : List α} {s s' : σ}
    (h : as.foldlM f s = .ok s') : g s' = g s := by
  induction as generalizing s with
  | nil => cases h; rfl
  | cons a as ih =>
    obtain ⟨s₁, hs₁, hs'⟩ := bind_eq_ok.mp h
    rw [ih hs', hf s a s₁ hs₁]

/-- A loop that returns has returned from its step on each element. -/
theorem foldlM_step_of_mem {f : σ → α → Except ε σ} {as : List α} {s s' : σ}
    (h : as.foldlM f s = .ok s') {a : α} (ha : a ∈ as) : ∃ s₁ s₂, f s₁ a = .ok s₂ := by
  induction as generalizing s with
  | nil => cases ha
  | cons b as ih =>
    obtain ⟨s₁, hs₁, hs'⟩ := bind_eq_ok.mp h
    obtain rfl | ha := List.mem_cons.mp ha
    · exact ⟨s, s₁, hs₁⟩
    · exact ih hs' ha

/-- A loop over the elements of lists, one list after the other, is a loop over
all of them. -/
theorem foldlM_flatten {m : Type → Type} [Monad m] [LawfulMonad m] {f : σ → α → m σ}
    (lists : List (List α)) (s : σ) :
    lists.flatten.foldlM f s = lists.foldlM (fun s as => as.foldlM f s) s := by
  induction lists generalizing s with
  | nil => rfl
  | cons as lists ih =>
    rw [List.flatten_cons, List.foldlM_append, List.foldlM_cons]
    exact bind_congr ih

/-- Two steps that fail in one way only fail in that way. -/
theorem okOr_bind (o : Option α) (f : α → Option β) (e : ε) :
    okOr (o.bind f) e = okOr o e >>= fun a => okOr (f a) e := by
  cases o <;> rfl

/-- Loops whose steps are the same are the same. -/
theorem foldlM_congr {m : Type → Type} [Monad m] {f g : σ → α → m σ} {as : List α}
    (h : ∀ a ∈ as, ∀ s, f s a = g s a) (s : σ) : as.foldlM f s = as.foldlM g s := by
  induction as generalizing s with
  | nil => rfl
  | cons a as ih =>
    rw [List.foldlM_cons, List.foldlM_cons, h a List.mem_cons_self]
    congr 1
    funext s'
    exact ih (fun b hb => h b (List.mem_cons_of_mem a hb)) s'

/-- A loop whose steps fail in one way only fails in that way. -/
theorem okOr_foldlM (f : σ → α → Option σ) (e : ε) (as : List α) (s : σ) :
    okOr (as.foldlM f s) e = as.foldlM (fun s a => okOr (f s a) e) s := by
  induction as generalizing s with
  | nil => rfl
  | cons a as ih =>
    rw [List.foldlM_cons, List.foldlM_cons]
    cases f s a with
    | none => rfl
    | some s₁ => exact ih s₁

/-- What every step of a loop keeps, the loop keeps; the steps do not fail. -/
theorem foldl_keeps {f : σ → α → σ} {g : σ → β} (hf : ∀ s a, g (f s a) = g s) (as : List α)
    (s : σ) : g (as.foldl f s) = g s := by
  induction as generalizing s with
  | nil => rfl
  | cons a as ih => rw [List.foldl_cons, ih, hf]

/-- A map of which no element fails. -/
theorem mapM_eq_some_map {f : α → Option β} {g : α → β} {as : List α}
    (h : ∀ a ∈ as, f a = some (g a)) : as.mapM f = some (as.map g) := by
  induction as with
  | nil => rfl
  | cons a as ih =>
    obtain ⟨ha, has⟩ := List.forall_mem_cons.mp h
    rw [List.mapM_cons, ha, ih has]
    rfl

/-- **What the results of a fallible map are**: one for each element, and each
that of an element. -/
theorem mapM_eq_some {f : α → Option β} {as : List α} {bs : List β} (h : as.mapM f = some bs) :
    as.length = bs.length ∧ (∀ b ∈ bs, ∃ a ∈ as, f a = some b)
      ∧ ∀ a ∈ as, ∃ b ∈ bs, f a = some b := by
  induction as generalizing bs with
  | nil =>
    cases h
    exact ⟨rfl, nofun, nofun⟩
  | cons a as ih =>
    simp only [List.mapM_cons, Option.bind_eq_bind, Option.bind_eq_some_iff, Option.pure_def,
      Option.some.injEq] at h
    obtain ⟨b, hb, bs', hbs', rfl⟩ := h
    obtain ⟨hlength, hof, hall⟩ := ih hbs'
    refine ⟨congrArg (· + 1) hlength, fun b' hb' => ?_, fun a' ha' => ?_⟩
    · obtain rfl | hb' := List.mem_cons.mp hb'
      · exact ⟨a, List.mem_cons_self, hb⟩
      · exact (hof b' hb').imp fun a' h => ⟨List.mem_cons_of_mem _ h.1, h.2⟩
    · obtain rfl | ha' := List.mem_cons.mp ha'
      · exact ⟨b, List.mem_cons_self, hb⟩
      · exact (hall a' ha').imp fun b' h => ⟨List.mem_cons_of_mem _ h.1, h.2⟩

end Result
