import IntuitionCore.Library.Table
import Mathlib.Data.Finset.Sort
import Mathlib.Data.Prod.Lex
import Mathlib.Order.WithBot

/-!
# Queries

A query selects the rows of a table that satisfy a condition, puts them in order, and
returns a page of them. What is selected is a table again, so that two queries which select
the same rows of two tables return the same, whatever else there is in the tables.
-/

namespace Table

variable {κ ρ ρ' ω : Type} [DecidableEq κ]

/-- The table with each row replaced by a function of it. -/
def mapTo (t : Table κ ρ) (f : κ → ρ → ρ') : Table κ ρ' :=
  t.liftOn (fun l => (⟨l.entries.map (.map id f), l.nodupKeys.map₂ f⟩ : AList _).toFinmap)
    fun _ _ h => AList.toFinmap_eq.mpr (h.map _)

/-- Each row is replaced. -/
@[simp] theorem lookup_mapTo (t : Table κ ρ) (f : κ → ρ → ρ') (k : κ) :
    (t.mapTo f).lookup k = (t.lookup k).map (f k) := by
  induction t using Finmap.induction_on with
  | _ l => exact List.dlookup_map₂ k

/-- The rows that satisfy a condition. -/
def select (t : Table κ ρ) (p : κ → ρ → Prop) [∀ k r, Decidable (p k r)] : Table κ ρ :=
  t.deleteRows fun k r => !decide (p k r)

variable {t u : Table κ ρ} {p q : κ → ρ → Prop} [∀ k r, Decidable (p k r)]
  [∀ k r, Decidable (q k r)]

/-- **What is selected.** -/
theorem lookup_select {k : κ} {r : ρ} :
    (t.select p).lookup k = some r ↔ t.lookup k = some r ∧ p k r := by
  rw [select, lookup_deleteRows, Option.filter_eq_some_iff]
  simp

/-- Two queries select the same if the rows that satisfy their conditions are the same. -/
theorem select_congr
    (h : ∀ k r, t.lookup k = some r ∧ p k r ↔ u.lookup k = some r ∧ q k r) :
    t.select p = u.select q :=
  Finmap.ext_lookup fun k => Option.ext fun r => by
    show (t.select p).lookup k = some r ↔ (u.select q).lookup k = some r
    rw [lookup_select, lookup_select, h]

/-- Where a key stands: by the rank of its row, and then by itself. -/
def place (t : Table κ ρ) (rank : κ → ρ → ω) (k : κ) : WithBot ω ×ₗ κ :=
  toLex ((t.lookup k).map (rank k), k)

/-- The rows in ascending order of a rank, and of their keys where that is the same. -/
def orderBy [LinearOrder κ] [LinearOrder ω] (t : Table κ ρ) (rank : κ → ρ → ω) : List (κ × ρ) :=
  (t.keys.image (t.place rank)).sort.filterMap fun x =>
    (t.lookup (ofLex x).2).map fun r => ((ofLex x).2, r)

end Table

/-- A page of some rows. -/
def page {α : Type} (limit offset : ℕ) (rows : List α) : List α :=
  (rows.drop offset).take limit
