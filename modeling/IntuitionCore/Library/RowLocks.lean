import IntuitionCore.Library.Query
import Mathlib.Data.Finset.Image

/-!
# Tables with row locks

Several transactions write to one table. A transaction locks the row of a key before it
writes to it, and holds the lock until it ends; what it has written is seen by others once
it commits, and each row that is committed carries the transaction that wrote it. So a row
that was deleted is told from one that was put in its place later.

A statement that deletes takes the rows that are committed when it begins, and deletes one
after the other. It waits where another transaction holds the lock, and goes on where the
row is gone by then. Rows that are committed in the meantime are not deleted: it does not
know of them.

Where the keys fall into slots and the statements of a transaction are for whole slots, a
commit takes from each slot all the rows that another transaction wrote, or none.
-/

/-- A table, and what the transactions that are open have written to it. -/
structure LockedTable (κ ρ : Type) where
  /-- The rows that are committed, with the transactions that wrote them. -/
  rows : Table κ (ℕ × ρ) := ∅
  /-- The transactions that hold the locks. -/
  locks : Table κ ℕ := ∅
  /-- The rows that are written under locks; where there is none, the row is deleted. -/
  news : Table κ ρ := ∅

namespace LockedTable

variable {κ ρ γ : Type} [DecidableEq κ] (s : LockedTable κ ρ) (t : ℕ) (k : κ)

/-- What a transaction has put under a key. -/
def inserted : Option ρ := if s.locks.lookup k = some t then s.news.lookup k else none

/-- What a transaction finds under a key. -/
def visible : Option ρ :=
  if s.locks.lookup k = some t then s.news.lookup k else (s.rows.lookup k).map Prod.snd

/-- No other transaction holds the lock. -/
def Free : Prop := ∀ u ∈ s.locks.lookup k, u = t

instance : Decidable (s.Free t k) := inferInstanceAs (Decidable (∀ u ∈ s.locks.lookup k, u = t))

/-- Lock the row of a key and write to it. -/
def write (row : Option ρ) : LockedTable κ ρ :=
  { s with locks := s.locks.insert k t, news := s.news.alter k fun _ => row }

/-- Insert a row. It is not possible where there is one, and not yet where another
transaction holds the lock. -/
def insertRow (row : ρ) : Option (LockedTable κ ρ) :=
  if s.Free t k ∧ s.visible t k = none then some (s.write t k (some row)) else none

/-- Insert a row, or put it in the place of the one there is. -/
def upsertRow (row : ρ) : Option (LockedTable κ ρ) :=
  if s.Free t k then some (s.write t k (some row)) else none

/-- The rows with some keys that a statement finds when it begins, but for those that its
transaction has written to. -/
def rowsWhere (p : κ → Prop) [DecidablePred p] : Finset (κ × ℕ) :=
  (s.rows.keys.filter fun k => p k ∧ s.locks.lookup k ≠ some t).biUnion fun k =>
    ((s.rows.lookup k).map fun row => (k, row.1)).toFinset

/-- Delete a row that a statement has found, if it is still there. -/
def deleteRow (row : κ × ℕ) : Option (LockedTable κ ρ) :=
  if (s.rows.lookup row.1).map Prod.fst = some row.2 then
    if s.Free t row.1 then some (s.write t row.1 none) else none
  else some s

/-- Give the locks of a transaction back. -/
def release : LockedTable κ ρ :=
  { s with
    locks := s.locks.deleteRows fun _ u => u = t
    news := s.news.deleteRows fun k _ => s.locks.lookup k = some t }

/-- End a transaction, and let what it has written be. -/
def abort : LockedTable κ ρ := s.release t

/-- End a transaction, and make what it has written known. -/
def commit : LockedTable κ ρ :=
  { s.release t with
    rows := (s.news.deleteRows fun k _ => s.locks.lookup k ≠ some t).mapTo (fun _ row => (t, row))
      ∪ s.rows.deleteRows fun k _ => s.locks.lookup k = some t }

variable {s t k} {k' : κ} {u : ℕ} {row : Option ρ} {s' : LockedTable κ ρ} {p : κ → Prop}
  [DecidablePred p]

/-! ## What the operations leave -/

theorem free_of_locks (h : s.locks.lookup k = some t) : s.Free t k := fun _ hu =>
  Option.some.inj (hu.symm.trans h)

theorem insertRow_eq_some {x : ρ} (h : s.insertRow t k x = some s') :
    s.Free t k ∧ s.visible t k = none ∧ s' = s.write t k (some x) := by
  obtain ⟨⟨hfree, hnone⟩, hs'⟩ := Option.ite_none_right_eq_some.mp h
  exact ⟨hfree, hnone, (Option.some.inj hs').symm⟩

theorem upsertRow_eq_some {x : ρ} (h : s.upsertRow t k x = some s') :
    s.Free t k ∧ s' = s.write t k (some x) := by
  obtain ⟨hfree, hs'⟩ := Option.ite_none_right_eq_some.mp h
  exact ⟨hfree, (Option.some.inj hs').symm⟩

theorem deleteRow_eq_some {r : κ × ℕ} (h : s.deleteRow t r = some s') :
    (s.rows.lookup r.1).map Prod.fst ≠ some r.2 ∧ s' = s
      ∨ (s.rows.lookup r.1).map Prod.fst = some r.2 ∧ s.Free t r.1 ∧ s' = s.write t r.1 none := by
  unfold deleteRow at h
  by_cases hthere : (s.rows.lookup r.1).map Prod.fst = some r.2
  · rw [if_pos hthere] at h
    obtain ⟨hfree, hs'⟩ := Option.ite_none_right_eq_some.mp h
    exact .inr ⟨hthere, hfree, (Option.some.inj hs').symm⟩
  · rw [if_neg hthere] at h
    exact .inl ⟨hthere, (Option.some.inj h).symm⟩

@[simp] theorem locks_write :
    (s.write t k row).locks.lookup k' = if k' = k then some t else s.locks.lookup k' := by
  by_cases h : k' = k
  · rw [if_pos h, h]
    exact Finmap.lookup_insert _
  · rw [if_neg h]
    exact Finmap.lookup_insert_of_ne _ h

/-- **What a transaction writes it has written.** -/
theorem inserted_write :
    (s.write t k row).inserted t k' = if k' = k then row else s.inserted t k' := by
  unfold inserted
  rw [locks_write]
  by_cases h : k' = k
  · rw [if_pos h, if_pos h, if_pos rfl]
    show (s.news.alter k fun _ => row).lookup k' = row
    rw [Table.lookup_alter, if_pos h]
  · rw [if_neg h, if_neg h]
    show (if _ then (s.news.alter k fun _ => row).lookup k' else none) = _
    rw [Table.lookup_alter, if_neg h]

/-- Under a lock that is free to it, a transaction takes nothing from the others. -/
theorem locks_write_of_ne (hfree : s.Free t k) (hu : u ≠ t) :
    (s.write t k row).locks.lookup k' = some u ↔ s.locks.lookup k' = some u := by
  rw [locks_write]
  by_cases h : k' = k
  · rw [if_pos h, h]
    exact iff_of_false (fun heq => hu (Option.some.inj heq).symm) fun hlock => hu (hfree u hlock)
  · rw [if_neg h]

theorem inserted_write_of_ne (hfree : s.Free t k) (hu : u ≠ t) :
    (s.write t k row).inserted u k' = s.inserted u k' := by
  unfold inserted
  simp only [locks_write_of_ne hfree hu]
  by_cases hlock : s.locks.lookup k' = some u
  · have hne : k' ≠ k := fun h => hu (hfree u (h ▸ hlock))
    rw [if_pos hlock, if_pos hlock]
    show (s.news.alter k fun _ => row).lookup k' = _
    rw [Table.lookup_alter, if_neg hne]
  · rw [if_neg hlock, if_neg hlock]

theorem locks_release :
    (s.release t).locks.lookup k = some u ↔ s.locks.lookup k = some u ∧ u ≠ t := by
  show (s.locks.deleteRows _).lookup k = some u ↔ _
  rw [Table.lookup_deleteRows, Option.filter_eq_some_iff]
  simp

theorem inserted_release : (s.release t).inserted u k = if u = t then none else s.inserted u k := by
  unfold inserted
  by_cases hu : u = t
  · rw [if_pos hu, if_neg fun h => (locks_release.mp h).2 hu]
  · rw [if_neg hu]
    by_cases hlock : s.locks.lookup k = some u
    · rw [if_pos (locks_release.mpr ⟨hlock, hu⟩), if_pos hlock]
      show (s.news.deleteRows _).lookup k = _
      have hne : (decide (s.locks.lookup k = some t)) = false :=
        decide_eq_false fun h => hu (Option.some.inj (hlock.symm.trans h))
      rw [Table.lookup_deleteRows, hne]
      cases s.news.lookup k <;> rfl
    · rw [if_neg fun h => hlock (locks_release.mp h).1, if_neg hlock]

/-- **A commit puts in place what was written**, and leaves every other row. -/
theorem rows_commit :
    (s.commit t).rows.lookup k
      = if s.locks.lookup k = some t then (s.news.lookup k).map fun row => (t, row)
        else s.rows.lookup k := by
  show (Finmap.union _ _).lookup k = _
  rw [show ∀ a b : Table κ (ℕ × ρ), (Finmap.union a b).lookup k = (a ∪ b).lookup k from
    fun _ _ => rfl, Table.lookup_union, Table.lookup_mapTo, Table.lookup_deleteRows,
    Table.lookup_deleteRows]
  by_cases hlock : s.locks.lookup k = some t
  · rw [if_pos hlock, hlock]
    cases s.news.lookup k <;> cases s.rows.lookup k <;> simp [Option.filter]
  · rw [if_neg hlock, decide_eq_true hlock, decide_eq_false hlock]
    cases s.news.lookup k <;> cases s.rows.lookup k <;> rfl

theorem mem_rowsWhere {r : κ × ℕ} :
    r ∈ s.rowsWhere t p ↔ p r.1 ∧ s.locks.lookup r.1 ≠ some t
      ∧ (s.rows.lookup r.1).map Prod.fst = some r.2 := by
  obtain ⟨k, u⟩ := r
  unfold rowsWhere
  simp only [Finset.mem_biUnion, Finset.mem_filter, Finmap.mem_keys, Option.mem_toFinset,
    Option.mem_def, Option.map_eq_some_iff, Prod.mk.injEq]
  constructor
  · rintro ⟨k', ⟨-, hp, hlock⟩, row, hrow, rfl, rfl⟩
    exact ⟨hp, hlock, row, hrow, rfl⟩
  · rintro ⟨hp, hlock, row, hrow, rfl⟩
    exact ⟨k, ⟨Finmap.mem_iff.mpr ⟨row, hrow⟩, hp, hlock⟩, row, hrow, rfl, rfl⟩

/-! ## Whole slots -/

section Slots

variable (slot : κ → γ)

/-- The rows of a slot have been written by one transaction. -/
def OneWriter (s : LockedTable κ ρ) : Prop :=
  ∀ ⦃k k' u u' x x'⦄, slot k = slot k' → s.rows.lookup k = some (u, x) →
    s.rows.lookup k' = some (u', x') → u = u'

/-- A transaction has written to a row, or is about to delete it. -/
def Touches (s : LockedTable κ ρ) (t : ℕ) (left : Finset (κ × ℕ)) (k : κ) (u : ℕ) : Prop :=
  s.locks.lookup k = some t ∨ (k, u) ∈ left

/-- **A transaction touches all rows of a slot or none.** -/
def Together (s : LockedTable κ ρ) (t : ℕ) (left : Finset (κ × ℕ)) : Prop :=
  ∀ ⦃k k' u x x'⦄, slot k = slot k' → s.rows.lookup k = some (u, x) →
    s.rows.lookup k' = some (u, x') → s.Touches t left k u → s.Touches t left k' u

variable {slot} {left : Finset (κ × ℕ)}

theorem Together.congr (h : s.Together slot t left) (hrows : s'.rows = s.rows)
    (hlocks : ∀ k, s'.locks.lookup k = some t ↔ s.locks.lookup k = some t) :
    s'.Together slot t left := by
  intro k k' u x x' hslot hk hk' htouch
  rw [hrows] at hk hk'
  exact (h hslot hk hk' (htouch.imp_left (hlocks k).mp)).imp_left (hlocks k').mpr

/-- A transaction that has not written anything. -/
theorem Together.of_no_locks (h : ∀ k, s.locks.lookup k ≠ some t) :
    s.Together slot t ∅ := by
  intro k k' u x x' _ _ _ htouch
  exact htouch.elim (fun hlock => absurd hlock (h k)) fun hmem =>
    absurd hmem (Finset.notMem_empty _)

/-- **A statement that begins to delete a slot** is about to delete all of it. -/
theorem Together.rowsWhere [DecidableEq γ] (h : s.Together slot t ∅) (g : γ) :
    s.Together slot t (s.rowsWhere t fun k => slot k = g) := by
  intro k k' u x x' hslot hk hk' htouch
  by_cases hlock' : s.locks.lookup k' = some t
  · exact .inl hlock'
  · refine .inr (mem_rowsWhere.mpr ⟨?_, hlock', by rw [hk']; rfl⟩)
    by_contra hne
    obtain hlock | hmem := htouch
    · exact (h hslot hk hk' (.inl hlock)).elim hlock' (Finset.notMem_empty _)
    · exact hne (hslot.symm.trans (mem_rowsWhere.mp hmem).1)

/-- A row is deleted, or it is gone. -/
theorem Together.deleteRow (h : s.Together slot t left) {r : κ × ℕ} (hr : r ∈ left)
    (hs : s.deleteRow t r = some s') : s'.Together slot t (left.erase r) := by
  obtain ⟨hgone, rfl⟩ | ⟨hthere, -, rfl⟩ := deleteRow_eq_some hs
  · have htouches : ∀ {k u x}, s'.rows.lookup k = some (u, x) →
        (s'.Touches t (left.erase r) k u ↔ s'.Touches t left k u) := by
      intro k u x hk
      refine or_congr_right ⟨Finset.mem_of_mem_erase, fun hmem => Finset.mem_erase.mpr ⟨?_, hmem⟩⟩
      rintro rfl
      exact hgone (by rw [hk]; rfl)
    intro k k' u x x' hslot hk hk' htouch
    exact (htouches hk').mpr (h hslot hk hk' ((htouches hk).mp htouch))
  · have htouches : ∀ {k u x}, s.rows.lookup k = some (u, x) →
        ((s.write t r.1 none).Touches t (left.erase r) k u ↔ s.Touches t left k u) := by
      intro k u x hk
      unfold Touches
      rw [locks_write]
      by_cases hkr : k = r.1
      · -- the row that is deleted was to be deleted
        have hu : (k, u) = r := by
          rw [← hkr, hk] at hthere
          exact Prod.ext hkr (Option.some.inj hthere)
        rw [if_pos hkr, hu]
        exact iff_of_true (.inl rfl) (.inr hr)
      · rw [if_neg hkr]
        refine or_congr_right ⟨Finset.mem_of_mem_erase, fun hmem => Finset.mem_erase.mpr ⟨?_, hmem⟩⟩
        exact fun heq => hkr (heq ▸ rfl)
    intro k k' u x x' hslot hk hk' htouch
    exact (htouches hk').mpr (h hslot hk hk' ((htouches hk).mp htouch))

/-- A row is inserted where there is none. -/
theorem Together.insertRow (h : s.Together slot t left) {x : ρ}
    (hs : s.insertRow t k x = some s') : s'.Together slot t left := by
  obtain ⟨-, hnone, rfl⟩ := insertRow_eq_some hs
  have htouches : ∀ {k' u y}, s.rows.lookup k' = some (u, y) →
      ((s.write t k (some x)).Touches t left k' u ↔ s.Touches t left k' u) := by
    intro k' u y hk'
    unfold Touches
    rw [locks_write]
    by_cases hkk : k' = k
    · -- a row that is there has been deleted by the transaction itself
      have hlock : s.locks.lookup k' = some t := by
        by_contra hlock
        rw [hkk] at hlock hk'
        rw [visible, if_neg hlock, hk'] at hnone
        cases hnone
      rw [if_pos hkk]
      exact iff_of_true (.inl rfl) (.inl hlock)
    · rw [if_neg hkk]
  intro k₁ k₂ u y y' hslot hk₁ hk₂ htouch
  exact (htouches hk₂).mpr (h hslot hk₁ hk₂ ((htouches hk₁).mp htouch))

/-- What another transaction writes does not matter. -/
theorem Together.write_of_ne (h : s.Together slot u left) (hfree : s.Free t k) (hu : u ≠ t) :
    (s.write t k row).Together slot u left :=
  h.congr rfl fun _ => locks_write_of_ne hfree hu

theorem Together.abort_of_ne (h : s.Together slot u left) (hu : u ≠ t) :
    (s.abort t).Together slot u left :=
  h.congr rfl fun _ => locks_release.trans (and_iff_left hu)

/-- What another transaction commits does not matter: it has not been found by a statement
that began before. -/
theorem Together.commit_of_ne (h : s.Together slot u left) (hu : u ≠ t)
    (hrows : ∀ k r, s.rows.lookup k = some r → r.1 ≠ t) (hleft : ∀ r ∈ left, r.2 ≠ t) :
    (s.commit t).Together slot u left := by
  have htouches : ∀ {k w}, (s.commit t).Touches u left k w ↔ s.Touches u left k w :=
    or_congr_left (locks_release.trans (and_iff_left hu))
  have hkeep : ∀ {k w x}, (s.commit t).rows.lookup k = some (w, x) →
      s.rows.lookup k = some (w, x) ∨ w = t ∧ s.locks.lookup k = some t := by
    intro k w x hk
    rw [rows_commit] at hk
    by_cases hlock : s.locks.lookup k = some t
    · rw [if_pos hlock, Option.map_eq_some_iff] at hk
      obtain ⟨y, -, heq⟩ := hk
      exact .inr ⟨(congrArg Prod.fst heq).symm, hlock⟩
    · rw [if_neg hlock] at hk
      exact .inl hk
  intro k k' w x x' hslot hk hk' htouch
  obtain hold | ⟨hw, hlock⟩ := hkeep hk
  · obtain hold' | ⟨hw, -⟩ := hkeep hk'
    · exact htouches.mpr (h hslot hold hold' (htouches.mp htouch))
    · exact absurd hw (hrows k (w, x) hold)
  · obtain hlock' | hmem := htouches.mp htouch
    · exact absurd (Option.some.inj (hlock'.symm.trans hlock)) hu
    · exact absurd hw (hleft (k, w) hmem)

/-- **A transaction whose statements are done has deleted a slot or left it.** -/
theorem Together.deleted_or_left (h : s.Together slot t ∅) (hone : s.OneWriter slot) (g : γ) :
    (∀ k, slot k = g → s.rows.lookup k ≠ none → s.locks.lookup k = some t)
      ∨ ∀ k, slot k = g → s.rows.lookup k ≠ none → s.locks.lookup k ≠ some t := by
  by_cases hsome : ∃ k, slot k = g ∧ s.rows.lookup k ≠ none ∧ s.locks.lookup k = some t
  · obtain ⟨k, hk, hrow, hlock⟩ := hsome
    refine .inl fun k' hk' hrow' => ?_
    obtain ⟨⟨u, x⟩, hu⟩ := Option.ne_none_iff_exists'.mp hrow
    obtain ⟨⟨u', x'⟩, hu'⟩ := Option.ne_none_iff_exists'.mp hrow'
    obtain rfl := hone (hk.trans hk'.symm) hu hu'
    exact (h (hk.trans hk'.symm) hu hu' (.inl hlock)).elim id fun hmem =>
      absurd hmem (Finset.notMem_empty _)
  · exact .inr fun k hk hrow hlock => hsome ⟨k, hk, hrow, hlock⟩

end Slots

end LockedTable
