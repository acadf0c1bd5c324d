import Mathlib.Data.List.Basic

/-!
# Rows that are told apart by a key

A table with a unique key takes a row only if no row with its key is there. The
rows that come out of any number of such inserts are told apart by their keys,
they are among those that were there and those that came, and each key that
came is there.
-/

namespace Distinct

variable {ρ κ : Type} [DecidableEq κ] (key : ρ → κ)

/-- Rows with the same key are the same. -/
def ByKey (rows : List ρ) : Prop :=
  ∀ r ∈ rows, ∀ r' ∈ rows, key r = key r' → r = r'

/-- Insert a row, unless one with its key is there. -/
def insertNew (rows : List ρ) (row : ρ) : List ρ :=
  if rows.any fun r => key r = key row then rows else rows ++ [row]

/-- Insert rows one after the other. -/
def insertAll (rows new : List ρ) : List ρ := new.foldl (insertNew key) rows

variable {key} {rows new : List ρ} {row r : ρ}

theorem insertNew_of_any (h : ∃ r ∈ rows, key r = key row) : insertNew key rows row = rows :=
  if_pos (by simpa using h)

theorem insertNew_of_not_any (h : ∀ r ∈ rows, key r ≠ key row) :
    insertNew key rows row = rows ++ [row] :=
  if_neg (by simpa using h)

theorem subset_insertNew : rows ⊆ insertNew key rows row := by
  unfold insertNew
  split
  · exact fun _ h => h
  · exact List.subset_append_left _ _

theorem mem_of_mem_insertNew (h : r ∈ insertNew key rows row) : r ∈ rows ∨ r = row := by
  unfold insertNew at h
  split at h
  · exact .inl h
  · simpa using h

theorem exists_key_insertNew : ∃ r ∈ insertNew key rows row, key r = key row := by
  by_cases h : ∃ r ∈ rows, key r = key row
  · rw [insertNew_of_any h]
    exact h
  · rw [insertNew_of_not_any fun r hr heq => h ⟨r, hr, heq⟩]
    exact ⟨row, by simp, rfl⟩

theorem ByKey.insertNew (h : ByKey key rows) : ByKey key (insertNew key rows row) := by
  by_cases hany : ∃ r ∈ rows, key r = key row
  · rw [insertNew_of_any hany]
    exact h
  · rw [insertNew_of_not_any fun r hr heq => hany ⟨r, hr, heq⟩]
    intro a ha b hb hab
    rw [List.mem_append, List.mem_singleton] at ha hb
    obtain ha | rfl := ha <;> obtain hb | rfl := hb
    · exact h a ha b hb hab
    · exact absurd ⟨a, ha, hab⟩ hany
    · exact absurd ⟨b, hb, hab.symm⟩ hany
    · rfl

/-! ## Many inserts -/

theorem subset_insertAll : rows ⊆ insertAll key rows new := by
  induction new generalizing rows with
  | nil => exact fun _ h => h
  | cons row new ih => exact fun _ h => ih (subset_insertNew h)

theorem mem_of_mem_insertAll (h : r ∈ insertAll key rows new) : r ∈ rows ∨ r ∈ new := by
  induction new generalizing rows with
  | nil => exact .inl h
  | cons row new ih =>
    obtain h | h := ih h
    · obtain h | rfl := mem_of_mem_insertNew h
      · exact .inl h
      · exact .inr List.mem_cons_self
    · exact .inr (List.mem_cons_of_mem _ h)

/-- **Each key that came is there.** -/
theorem exists_key_insertAll (h : row ∈ new) : ∃ r ∈ insertAll key rows new, key r = key row := by
  induction new generalizing rows with
  | nil => cases h
  | cons row' new ih =>
    show ∃ r ∈ insertAll key (insertNew key rows row') new, key r = key row
    obtain rfl | h := List.mem_cons.mp h
    · obtain ⟨r, hr, hkey⟩ : ∃ r ∈ insertNew key rows row, key r = key row :=
        exists_key_insertNew
      exact ⟨r, subset_insertAll hr, hkey⟩
    · exact ih h

/-- **Rows that are told apart by their keys still are after inserts.** -/
theorem ByKey.insertAll (h : ByKey key rows) : ByKey key (insertAll key rows new) := by
  induction new generalizing rows with
  | nil => exact h
  | cons row new ih => exact ih h.insertNew

end Distinct
