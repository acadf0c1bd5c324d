import Mathlib.Data.List.Forall2

/-!
# Texts that can be told apart

A text is put together from the texts of its parts, one after the other, and the parts are to
be told from it again. It is enough that the texts of two different parts can be told apart
whatever follows them, of what may follow: then what follows can be told as well.

That is the case of texts which are runs of one class of characters and followed by a
character of another one, of a sequence of such texts that a character ends, and of a list
whose texts are separated by one character and closed by another one.
-/

namespace PrefixCode

variable {α β : Type} {p : α → Prop} {follows follows' : List α → Prop} {same same' : Prop}
  {t t' u u' : List α}

/-- **What two texts say is told whatever follows them.** If they begin one text, what they say
is the same, and so is what follows. -/
def ToldApart (follows : List α → Prop) (same : Prop) (t t' : List α) : Prop :=
  ∀ r r', follows r → follows r' → t ++ r = t' ++ r' → same ∧ r = r'

/-- A text that no character of a class begins. -/
def BeginsOutside (p : α → Prop) (r : List α) : Prop := ∀ c ∈ r.head?, ¬ p c

theorem ToldApart.mono (h : ToldApart follows same t t') (hfollows : ∀ r, follows' r → follows r)
    (hsame : same → same') : ToldApart follows' same' t t' := by
  intro r r' hr hr' heq
  exact (h r r' (hfollows r hr) (hfollows r' hr') heq).imp_left hsame

/-- Equal texts that nothing follows say the same. -/
theorem ToldApart.of_eq (h : ToldApart follows same t t') (hnil : follows []) (heq : t = t') :
    same :=
  (h [] [] hnil hnil (congrArg (· ++ []) heq)).1

/-- Texts that begin differently are told apart. -/
theorem ToldApart.of_head_ne {c c' : α} (hne : c ≠ c') :
    ToldApart follows same (c :: t) (c' :: t') := by
  intro r r' _ _ heq
  exact absurd (List.cons.inj heq).1 hne

/-- A character in front of both texts is the same. -/
theorem ToldApart.cons (h : ToldApart follows same t t') (c : α) :
    ToldApart follows same (c :: t) (c :: t') := by
  intro r r' hr hr' heq
  exact h r r' hr hr' (List.cons.inj heq).2

/-- **One text after another.** -/
theorem ToldApart.append (h : ToldApart follows same t t') (h' : ToldApart follows' same' u u')
    (hu : ∀ r, follows' r → follows (u ++ r)) (hu' : ∀ r, follows' r → follows (u' ++ r)) :
    ToldApart follows' (same ∧ same') (t ++ u) (t' ++ u') := by
  intro r r' hr hr' heq
  rw [List.append_assoc, List.append_assoc] at heq
  obtain ⟨hsame, hrest⟩ := h _ _ (hu r hr) (hu' r' hr') heq
  obtain ⟨hsame', hr⟩ := h' r r' hr hr' hrest
  exact ⟨⟨hsame, hsame'⟩, hr⟩

/-- **A run of a class** ends where something else begins. -/
theorem toldApart_run (ht : ∀ c ∈ t, p c) (ht' : ∀ c ∈ t', p c) :
    ToldApart (BeginsOutside p) (t = t') t t' := by
  induction t generalizing t' with
  | nil =>
    intro r r' hr _ heq
    cases t' with
    | nil => exact ⟨rfl, heq⟩
    | cons c' t' =>
      rw [List.nil_append] at heq
      rw [heq] at hr
      exact absurd (ht' c' List.mem_cons_self) (hr c' rfl)
  | cons c t ih =>
    intro r r' hr hr' heq
    cases t' with
    | nil =>
      rw [List.nil_append] at heq
      rw [← heq] at hr'
      exact absurd (ht c List.mem_cons_self) (hr' c rfl)
    | cons c' t' =>
      obtain ⟨rfl, hrest⟩ := List.cons.inj heq
      have htell := ih (fun c hc => ht c (List.mem_cons_of_mem _ hc))
        fun c hc => ht' c (List.mem_cons_of_mem _ hc)
      exact (htell r r' hr hr' hrest).imp_left (congrArg (c :: ·))

/-! ## Sequences -/

variable {text : β → List α} {xs ys : List β} {stop : α}

/-- The text of something begins with another character than the one that stops. -/
def GoesOn (text : β → List α) (stop : α) (x : β) : Prop := ∃ c t, text x = c :: t ∧ c ≠ stop

/-- **A sequence of texts that a character ends**, with which none of them begins. -/
theorem toldApart_sequence (hxs : ∀ x ∈ xs, GoesOn text stop x)
    (hys : ∀ y ∈ ys, GoesOn text stop y)
    (h : ∀ x ∈ xs, ∀ y ∈ ys, ToldApart (fun _ => True) (x = y) (text x) (text y)) :
    ToldApart (fun _ => True) (xs = ys) (xs.flatMap text ++ [stop])
      (ys.flatMap text ++ [stop]) := by
  induction xs generalizing ys with
  | nil =>
    cases ys with
    | nil => exact fun r r' _ _ heq => ⟨rfl, (List.cons.inj heq).2⟩
    | cons y ys =>
      obtain ⟨c, t, hy, hc⟩ := hys y List.mem_cons_self
      rw [List.flatMap_cons, hy]
      exact .of_head_ne hc.symm
  | cons x xs ih =>
    obtain ⟨hx, hxs⟩ := List.forall_mem_cons.mp hxs
    obtain ⟨c, t, hx, hc⟩ := hx
    cases ys with
    | nil =>
      rw [List.flatMap_cons, hx]
      exact .of_head_ne hc
    | cons y ys =>
      have hrest := ih hxs (List.forall_mem_cons.mp hys).2
        fun x hx y hy => h x (List.mem_cons_of_mem _ hx) y (List.mem_cons_of_mem _ hy)
      rw [List.flatMap_cons, List.flatMap_cons, List.append_assoc, List.append_assoc]
      exact ((h x List.mem_cons_self y List.mem_cons_self).append hrest (fun _ _ => trivial)
        fun _ _ => trivial).mono (fun _ => id) fun heq => by rw [heq.1, heq.2]

/-! ## Lists -/

variable {sep close : α} {rel : β → β → Prop}

/-- The texts of a list, with a character between them and another one behind. -/
def listed (text : β → List α) (sep close : α) : List β → List α
  | [] => [close]
  | [x] => text x ++ [close]
  | x :: y :: xs => text x ++ sep :: listed text sep close (y :: xs)

/-- What is behind an element of a list: the closing character, or a separator. -/
def behind (text : β → List α) (sep close : α) : List β → List α
  | [] => [close]
  | x :: xs => sep :: listed text sep close (x :: xs)

theorem listed_cons (x : β) (xs : List β) :
    listed text sep close (x :: xs) = text x ++ behind text sep close xs := by
  cases xs <;> rfl

/-- A list is the texts with separators, and the closing character. -/
theorem listed_eq_intercalate (xs : List β) :
    listed text sep close xs = [sep].intercalate (xs.map text) ++ [close] := by
  induction xs with
  | nil => rfl
  | cons x xs ih =>
    cases xs with
    | nil => simp [listed, List.intercalate]
    | cons y xs =>
      rw [listed, ih]
      simp [List.intercalate]

/-- **A list of texts between separators, closed by a character** with which none of them
begins. The texts may rely on what is behind an element. -/
theorem toldApart_listed (hne : sep ≠ close) (hsep : ∀ r, follows (sep :: r))
    (hclose : ∀ r, follows (close :: r))
    (hxs : ∀ x ∈ xs, GoesOn text close x) (hys : ∀ y ∈ ys, GoesOn text close y)
    (h : ∀ x ∈ xs, ∀ y ∈ ys, ToldApart follows (rel x y) (text x) (text y)) :
    ToldApart (fun _ => True) (List.Forall₂ rel xs ys) (listed text sep close xs)
      (listed text sep close ys) := by
  induction xs generalizing ys with
  | nil =>
    cases ys with
    | nil => exact fun r r' _ _ heq => ⟨.nil, (List.cons.inj heq).2⟩
    | cons y ys =>
      obtain ⟨c, t, hy, hc⟩ := hys y List.mem_cons_self
      rw [listed_cons, hy]
      exact .of_head_ne hc.symm
  | cons x xs ih =>
    obtain ⟨hx, hxs⟩ := List.forall_mem_cons.mp hxs
    obtain ⟨c, t, hx, hc⟩ := hx
    cases ys with
    | nil =>
      rw [listed_cons, hx]
      exact .of_head_ne hc
    | cons y ys =>
      have htail := ih hxs (List.forall_mem_cons.mp hys).2
        fun x hx y hy => h x (List.mem_cons_of_mem _ hx) y (List.mem_cons_of_mem _ hy)
      -- what is behind the first elements
      have hrest : ToldApart (fun _ => True) (List.Forall₂ rel xs ys)
          (behind text sep close xs) (behind text sep close ys) := by
        cases xs with
        | nil =>
          cases ys with
          | nil => exact htail
          | cons y' ys => exact .of_head_ne hne.symm
        | cons x' xs =>
          cases ys with
          | nil => exact .of_head_ne hne
          | cons y' ys => exact htail.cons sep
      have hfollows : ∀ zs r, True → follows (behind text sep close zs ++ r) := by
        intro zs r _
        cases zs with
        | nil => exact hclose r
        | cons z zs => exact hsep _
      rw [listed_cons, listed_cons]
      exact ((h x List.mem_cons_self y List.mem_cons_self).append hrest (hfollows xs)
        (hfollows ys)).mono (fun _ => id) fun hrel => .cons hrel.1 hrel.2

end PrefixCode
