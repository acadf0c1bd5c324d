import Mathlib.Data.List.Basic

/-!
# What is stored, and read back

A *codec* writes the values of a type as stored values, from which it reads them back. It may
read others too: who reads a value does not know who has written it.

A *guard* is a test of stored values. It is one for a property if it accepts exactly those
values that are read as something with the property; so what is written passes it exactly
if it has the property.

Codecs and guards of parts make those of a whole: of a part that may be missing, of a list, and
of a record, which is a list of named fields. A field that is missing is left out of it.
-/

variable {α β γ : Type}

/-- A way to write values so that they can be read back. -/
structure Codec (β α : Type) where
  write : α → β
  read : β → Option α
  read_write : ∀ a, read (write a) = some a

namespace Codec

attribute [simp] read_write

/-- A test accepts what is read as something with a property. -/
def Guards (c : Codec β α) (accepts : β → Bool) (P : α → Prop) : Prop :=
  ∀ b, accepts b = true ↔ ∃ a, c.read b = some a ∧ P a

variable {c : Codec β α} {accepts : β → Bool} {P : α → Prop}

/-- **What is written passes a guard** exactly if it has the property. -/
theorem Guards.accepts_write (h : c.Guards accepts P) (a : α) :
    accepts (c.write a) = true ↔ P a := by
  rw [h]
  constructor
  · rintro ⟨a', ha', hP⟩
    rw [c.read_write] at ha'
    rwa [Option.some.inj ha']
  · intro hP
    exact ⟨a, c.read_write a, hP⟩

/-- What is written is written again. -/
def comp (c : Codec β α) (d : Codec α γ) : Codec β γ where
  write a := c.write (d.write a)
  read b := (c.read b).bind d.read
  read_write a := by rw [c.read_write, Option.bind_some, d.read_write]

/-! ## Parts -/

/-- A part that is there. -/
def required (c : Codec β α) : Codec (Option β) α where
  write a := some (c.write a)
  read b := b.bind c.read
  read_write := c.read_write

/-- A part that may be missing, but is read if it is there. -/
def optional (c : Codec β α) : Codec (Option β) (Option α) where
  write a := a.map c.write
  read
    | none => some none
    | some b => (c.read b).map some
  read_write
    | none => rfl
    | some a => congrArg (Option.map some) (c.read_write a)

/-- What is read of a part that may be missing is what is read of it if it is there. -/
theorem bind_read_of_optional {b : Option β} {a : Option α} (h : c.optional.read b = some a) :
    b.bind c.read = a := by
  cases b with
  | none => exact Option.some.inj h
  | some b =>
    obtain ⟨a', ha', rfl⟩ := Option.map_eq_some_iff.mp h
    exact ha'

/-- A list of parts. -/
def list (c : Codec β α) : Codec (List β) (List α) where
  write as := as.map c.write
  read bs := bs.mapM c.read
  read_write as := by
    induction as with
    | nil => rfl
    | cons a as ih => simp [ih]

/-- **A part that must be there** is guarded by a test that fails for a missing one. -/
theorem Guards.required (h : c.Guards accepts P) :
    c.required.Guards (fun b => b.any accepts) P := by
  intro b
  cases b with
  | none =>
    refine iff_of_false Bool.false_ne_true ?_
    rintro ⟨a, ha, -⟩
    cases ha
  | some b => exact h b

/-- **A part that may be missing** is guarded by a test that a missing one passes. -/
theorem Guards.optional (h : c.Guards accepts P) :
    c.optional.Guards (fun b => b.all accepts) (fun a => ∀ a' ∈ a, P a') := by
  intro b
  cases b with
  | none => exact iff_of_true rfl ⟨none, rfl, fun a ha => absurd ha (Option.not_mem_none a)⟩
  | some b =>
    refine (h b).trans ?_
    constructor
    · rintro ⟨a, ha, hP⟩
      refine ⟨some a, congrArg (Option.map some) ha, fun a' ha' => ?_⟩
      rwa [← Option.mem_some_iff.mp ha']
    · rintro ⟨a, ha, hP⟩
      obtain ⟨a', ha', rfl⟩ := Option.map_eq_some_iff.mp ha
      exact ⟨a', ha', hP a' rfl⟩

/-- **A list** is guarded by a test of all its parts. -/
theorem Guards.list (h : c.Guards accepts P) :
    c.list.Guards (fun bs => bs.all accepts) (fun as => ∀ a ∈ as, P a) := by
  intro bs
  induction bs with
  | nil => exact iff_of_true rfl ⟨[], rfl, fun a ha => absurd ha List.not_mem_nil⟩
  | cons b bs ih =>
    have hall : (b :: bs).all accepts = true ↔ accepts b = true ∧ bs.all accepts = true := by
      rw [List.all_cons, Bool.and_eq_true]
    refine hall.trans ((and_congr (h b) ih).trans ?_)
    constructor
    · rintro ⟨⟨a, ha, hP⟩, as, has, hPs⟩
      refine ⟨a :: as, ?_, List.forall_mem_cons.mpr ⟨hP, hPs⟩⟩
      show (b :: bs).mapM c.read = some (a :: as)
      rw [List.mapM_cons, ha, show bs.mapM c.read = some as from has]
      rfl
    · rintro ⟨as', has', hPs⟩
      obtain ⟨a, ha, has'⟩ := Option.bind_eq_some_iff.mp (List.mapM_cons.symm.trans has')
      obtain ⟨as, has, heq⟩ := Option.bind_eq_some_iff.mp has'
      cases heq
      obtain ⟨hP, hPs⟩ := List.forall_mem_cons.mp hPs
      exact ⟨⟨a, ha, hP⟩, as, has, hPs⟩

/-! ## Texts that stand for values -/

/-- The values of a type, each written as a text of its own. -/
def ofTexts (asStr : α → String) (texts : List (String × α))
    (h : ∀ a, texts.lookup (asStr a) = some a) : Codec String α where
  write := asStr
  read s := texts.lookup s
  read_write := h

/-! ## Records -/

/-- The fields of a record that are there. -/
def present (fields : List (String × Option β)) : List (String × β) :=
  fields.filterMap fun f => f.2.map (f.1, ·)

/-- **A field of a record**, if no two have the same name. -/
theorem lookup_present {fields : List (String × Option β)} (h : (fields.map Prod.fst).Nodup)
    (name : String) : (present fields).lookup name = (fields.lookup name).join := by
  induction fields with
  | nil => rfl
  | cons f fields ih =>
    obtain ⟨first, value⟩ := f
    obtain ⟨hfirst, hnodup⟩ := List.nodup_cons.mp h
    have hrest := ih hnodup
    by_cases hname : name = first
    · subst hname
      have hnone : fields.lookup name = none := List.lookup_eq_none_iff.mpr fun f hf =>
        bne_iff_ne.mpr fun heq => hfirst (List.mem_map.mpr ⟨f, hf, heq.symm⟩)
      rw [hnone] at hrest
      cases value with
      | none => simpa [present] using hrest
      | some value => simp [present]
    · have hbeq : (name == first) = false := beq_false_of_ne hname
      cases value with
      | none => simpa [present, List.lookup_cons, hbeq] using hrest
      | some value => simpa [present, List.lookup_cons, hbeq] using hrest

end Codec
