import IntuitionCore.Library.Ledger
import Mathlib.Data.Finmap

/-!
# Tables

A table is a finite map from primary keys to rows. Every statement that
touches one row – an insert that does nothing on a conflict, an insert that
updates on a conflict, an update, a delete – replaces the row of one key by a
function of that row, and leaves the others alone. `alter` is that operation,
and `lookup_alter` the only thing that needs to be known of it.

The rows of a ledger are kept in a table by `record`, which does with each
event what the ledger says, for the keys the writer owns.
-/

/-- A table of rows `ρ` with primary key `κ`. -/
abbrev Table (κ ρ : Type) : Type := Finmap (fun _ : κ => ρ)

namespace Table

variable {κ ρ : Type} [DecidableEq κ]

/-- Replace the row of a key by a function of it; `none` is no row. -/
def alter (t : Table κ ρ) (k : κ) (f : Option ρ → Option ρ) : Table κ ρ :=
  match f (t.lookup k) with
  | some r => t.insert k r
  | none => t.erase k

/-- **One row changes.** -/
theorem lookup_alter (t : Table κ ρ) (k k' : κ) (f : Option ρ → Option ρ) :
    (t.alter k f).lookup k' = if k' = k then f (t.lookup k) else t.lookup k' := by
  unfold alter
  by_cases hk : k' = k
  · subst hk
    rw [if_pos rfl]
    cases hf : f (t.lookup k') with
    | some r => exact Finmap.lookup_insert t
    | none => exact Finmap.lookup_erase k' t
  · rw [if_neg hk]
    cases hf : f (t.lookup k) with
    | some r => exact Finmap.lookup_insert_of_ne t hk
    | none => exact Finmap.lookup_erase_ne hk

/-- Insert a row, or update the one that is there; `f none` is the inserted
row. -/
def upsert (t : Table κ ρ) (k : κ) (f : Option ρ → ρ) : Table κ ρ :=
  t.alter k fun r => some (f r)

/-- Insert a row unless there is one. -/
def insertIfAbsent (t : Table κ ρ) (k : κ) (fresh : ρ) : Table κ ρ :=
  t.upsert k fun r => r.getD fresh

/-- Update the row of a key, if there is one. -/
def update (t : Table κ ρ) (k : κ) (f : ρ → ρ) : Table κ ρ :=
  t.alter k (Option.map f)

/-- Delete the row of a key, if it satisfies a condition. -/
def deleteWhere (t : Table κ ρ) (k : κ) (p : ρ → Bool) : Table κ ρ :=
  t.alter k (Option.filter fun r => !p r)

/-- Update every row. -/
def mapRows (t : Table κ ρ) (f : κ → ρ → ρ) : Table κ ρ :=
  t.liftOn (fun l => (⟨l.entries.map (.map id f), l.nodupKeys.map₂ f⟩ : AList _).toFinmap)
    fun _ _ h => AList.toFinmap_eq.mpr (h.map _)

/-- Delete the rows that satisfy a condition. -/
def deleteRows (t : Table κ ρ) (p : κ → ρ → Bool) : Table κ ρ :=
  t.liftOn (fun l => (⟨l.entries.filter fun s => !p s.1 s.2,
      l.nodupKeys.sublist List.filter_sublist⟩ : AList _).toFinmap)
    fun _ _ h => AList.toFinmap_eq.mpr (h.filter _)

/-- Every row is updated. -/
theorem lookup_mapRows (t : Table κ ρ) (f : κ → ρ → ρ) (k : κ) :
    (t.mapRows f).lookup k = (t.lookup k).map (f k) := by
  induction t using Finmap.induction_on with
  | _ l => exact List.dlookup_map₂ k

/-- The rows that satisfy a condition are gone, and the others are left. -/
theorem lookup_deleteRows (t : Table κ ρ) (p : κ → ρ → Bool) (k : κ) :
    (t.deleteRows p).lookup k = (t.lookup k).filter fun r => !p k r := by
  induction t using Finmap.induction_on with
  | _ l =>
    refine Option.ext fun r => ?_
    refine Iff.trans ?_ Option.mem_filter_iff.symm
    show r ∈ (l.entries.filter fun e => !p e.1 e.2).dlookup k ↔ r ∈ l.entries.dlookup k ∧ _
    rw [List.mem_dlookup_iff (l.nodupKeys.sublist List.filter_sublist),
      List.mem_dlookup_iff l.nodupKeys, List.mem_filter]

@[simp] theorem lookup_upsert (t : Table κ ρ) (k k' : κ) (f : Option ρ → ρ) :
    (t.upsert k f).lookup k' = if k' = k then some (f (t.lookup k)) else t.lookup k' :=
  t.lookup_alter k k' _

@[simp] theorem lookup_update (t : Table κ ρ) (k k' : κ) (f : ρ → ρ) :
    (t.update k f).lookup k' = if k' = k then (t.lookup k).map f else t.lookup k' :=
  t.lookup_alter k k' _

/-- A row that is inserted under a new key is one more. -/
theorem entries_insertIfAbsent {t : Table κ ρ} {k : κ} (h : k ∉ t) (fresh : ρ) :
    (t.insertIfAbsent k fresh).entries = ⟨k, fresh⟩ ::ₘ t.entries := by
  unfold insertIfAbsent upsert alter
  rw [Finmap.lookup_eq_none.mpr h]
  exact Finmap.entries_insert_of_notMem h

/-- An upsert leaves a row under its key. -/
theorem mem_upsert {t : Table κ ρ} {k k' : κ} {f : Option ρ → ρ} :
    k' ∈ t.upsert k f ↔ k' = k ∨ k' ∈ t := by
  rw [← Finmap.lookup_isSome, ← Finmap.lookup_isSome, lookup_upsert]
  by_cases h : k' = k <;> simp [h]

/-- The rows whose keys are in a set are deleted. -/
theorem mem_deleteRows_keys {t : Table κ ρ} {s : Finset κ} {k : κ} :
    k ∈ t.deleteRows (fun k _ => k ∈ s) ↔ k ∈ t ∧ k ∉ s := by
  rw [← Finmap.lookup_isSome, ← Finmap.lookup_isSome, lookup_deleteRows]
  cases t.lookup k with
  | none => simp
  | some r => by_cases hk : k ∈ s <;> simp [hk]

/-! ## Statements that touch the rows of a condition -/

section Where

variable (t : Table κ ρ) (p : κ → ρ → Prop) [∀ k r, Decidable (p k r)]

/-- The keys of the rows that satisfy a condition. -/
def keysWhere : Finset κ := t.keys.filter fun k => ∃ r ∈ t.lookup k, p k r

/-- Update the rows that satisfy a condition. -/
def updateWhere (f : ρ → ρ) : Table κ ρ := t.mapRows fun k r => if p k r then f r else r

/-- Some keys are those that a query for the rows of a condition returns, ordered by a
column and up to a limit. -/
def IsPage (column : ρ → ℕ) (limit : ℕ) (page : Finset κ) : Prop :=
  page ⊆ t.keysWhere p ∧ page.card = min limit (t.keysWhere p).card
    ∧ ∀ k ∈ page, ∀ k' ∈ t.keysWhere p, k' ∉ page →
      ∀ r ∈ t.lookup k, ∀ r' ∈ t.lookup k', column r ≤ column r'

instance (column : ρ → ℕ) (limit : ℕ) (page : Finset κ) :
    Decidable (t.IsPage p column limit page) :=
  inferInstanceAs (Decidable (_ ∧ _ ∧ _))

variable {t p}

theorem mem_keysWhere {k : κ} : k ∈ t.keysWhere p ↔ ∃ r, t.lookup k = some r ∧ p k r := by
  rw [keysWhere, Finset.mem_filter, Finmap.mem_keys]
  refine and_iff_right_of_imp ?_
  rintro ⟨r, hr, -⟩
  exact Finmap.mem_of_lookup_eq_some hr

/-- The rows that satisfy the condition are updated, and the others are left. -/
theorem lookup_updateWhere (f : ρ → ρ) (k : κ) :
    (t.updateWhere p f).lookup k = (t.lookup k).map fun r => if p k r then f r else r :=
  t.lookup_mapRows _ k

end Where

/-- The number of rows that satisfy a condition. -/
def count (t : Table κ ρ) (p : κ → ρ → Bool) : ℕ :=
  (t.keys.filter fun k => (t.lookup k).any (p k)).card

/-- The rows that are counted are those that satisfy the condition. -/
theorem mem_filter_keys {t : Table κ ρ} {p : κ → ρ → Bool} {k : κ} :
    k ∈ t.keys.filter (fun k => (t.lookup k).any (p k)) ↔ (t.lookup k).any (p k) = true := by
  rw [Finset.mem_filter, Finmap.mem_keys, ← Finmap.lookup_isSome]
  refine and_iff_right_of_imp fun hany => ?_
  cases hlook : t.lookup k with
  | none => simp [hlook] at hany
  | some r => rfl

/-- Two tables count the same if their rows meet the condition at the same
keys. -/
theorem count_congr {t u : Table κ ρ} {p : κ → ρ → Bool}
    (h : ∀ k, (t.lookup k).any (p k) = (u.lookup k).any (p k)) : t.count p = u.count p := by
  refine congrArg Finset.card (Finset.ext fun k => ?_)
  rw [mem_filter_keys, mem_filter_keys, h]

section Tabulate

/-- The table with a row for each key of a set. -/
def tabulate (s : Finset κ) (f : κ → ρ) : Table κ ρ where
  entries := s.val.map fun k => ⟨k, f k⟩
  nodupKeys := by
    rw [← Multiset.nodup_keys, Multiset.keys, Multiset.map_map]
    exact s.nodup.map fun _ _ h => h

omit [DecidableEq κ] in
theorem mem_tabulate {s : Finset κ} {f : κ → ρ} {k : κ} : k ∈ tabulate s f ↔ k ∈ s := by
  show k ∈ (s.val.map fun k => (⟨k, f k⟩ : Sigma fun _ : κ => ρ)).keys ↔ _
  rw [Multiset.keys, Multiset.map_map]
  simp

/-- **The rows of a table that was written down key by key.** -/
theorem lookup_tabulate (s : Finset κ) (f : κ → ρ) (k : κ) :
    (tabulate s f).lookup k = if k ∈ s then some (f k) else none := by
  by_cases hk : k ∈ s
  · rw [if_pos hk, Finmap.lookup_eq_some_iff]
    exact Multiset.mem_map_of_mem (fun k => (⟨k, f k⟩ : Sigma fun _ : κ => ρ)) hk
  · rw [if_neg hk, Finmap.lookup_eq_none, mem_tabulate]
    exact hk

end Tabulate

section UpsertAll

variable {ν : Type}

/-- Insert or update the rows of several keys. -/
def upsertAll (t : Table κ ρ) (f : Option ρ → ν → ρ) (values : List (κ × ν)) : Table κ ρ :=
  values.foldl (fun t value => t.upsert value.1 fun r => f r value.2) t

/-- Looking a key up in a list compares it with the first one. -/
theorem lookup_cons_eq_ite (value : κ × ν) (values : List (κ × ν)) (k : κ) :
    (value :: values).lookup k = if k = value.1 then some value.2 else values.lookup k := by
  rw [List.lookup_cons]
  by_cases hk : k = value.1
  · simp [hk]
  · rw [if_neg hk, beq_false_of_ne hk]

/-- **A key that has one value has its row replaced once**, and the others keep
theirs. -/
theorem lookup_upsertAll {t : Table κ ρ} {f : Option ρ → ν → ρ} {values : List (κ × ν)}
    (h : (values.map Prod.fst).Nodup) (k : κ) :
    (t.upsertAll f values).lookup k
      = (values.lookup k).elim (t.lookup k) fun v => some (f (t.lookup k) v) := by
  induction values generalizing t with
  | nil => rfl
  | cons value values ih =>
    obtain ⟨hmem, hnodup⟩ := List.nodup_cons.mp h
    show ((t.upsert value.1 fun r => f r value.2).upsertAll f values).lookup k = _
    rw [ih hnodup, lookup_upsert, lookup_cons_eq_ite]
    by_cases hk : k = value.1
    · have hnone : values.lookup k = none := List.lookup_eq_none_iff.mpr fun v hv =>
        bne_iff_ne.mpr fun heq => hmem (hk ▸ heq ▸ List.mem_map_of_mem hv)
      rw [if_pos hk, if_pos hk, hnone, hk]
      rfl
    · rw [if_neg hk, if_neg hk]

end UpsertAll

/-- The rows of one table, and those of another one where it has none. -/
theorem lookup_union (t u : Table κ ρ) (k : κ) :
    (t ∪ u).lookup k = (t.lookup k).or (u.lookup k) := by
  by_cases h : k ∈ t
  · obtain ⟨r, hr⟩ := Finmap.mem_iff.mp h
    rw [Finmap.lookup_union_left h, hr]
    rfl
  · rw [Finmap.lookup_union_right h, Finmap.lookup_eq_none.mpr h]
    rfl

/-- A condition on keys counts one row if it holds of one key only. -/
theorem count_eq_one {t : Table κ ρ} {p : κ → Bool} {k : κ} (hk : t.lookup k ≠ none)
    (hp : p k = true) (hunique : ∀ k', t.lookup k' ≠ none → p k' = true → k' = k) :
    t.count (fun k _ => p k) = 1 := by
  refine Finset.card_eq_one.mpr ⟨k, Finset.ext fun k' => ?_⟩
  rw [Finset.mem_filter, Finset.mem_singleton, Finmap.mem_keys, ← Finmap.lookup_isSome]
  constructor
  · rintro ⟨hsome, hany⟩
    obtain ⟨r, hr⟩ := Option.isSome_iff_exists.mp hsome
    rw [hr] at hany
    exact hunique k' (hr ▸ Option.some_ne_none r) hany
  · rintro rfl
    obtain ⟨r, hr⟩ := Option.ne_none_iff_exists'.mp hk
    rw [hr]
    exact ⟨rfl, hp⟩

/-- Two changes of one row are one change. -/
theorem alter_alter (t : Table κ ρ) (k : κ) (f g : Option ρ → Option ρ) :
    (t.alter k f).alter k g = t.alter k (g ∘ f) := by
  refine Finmap.ext_lookup fun k' => ?_
  rw [lookup_alter, lookup_alter, lookup_alter, lookup_alter]
  by_cases h : k' = k
  · rw [if_pos h, if_pos h, if_pos rfl]
    rfl
  · rw [if_neg h, if_neg h, if_neg h]

/-! ## The rows of a ledger -/

variable {ε : Type} (L : Ledger ε κ (Option ρ))

/-- What a ledger does with an event, to the keys a writer owns. -/
def record (own : κ → Bool) (t : Table κ ρ) (e : ε) : Table κ ρ :=
  match L.key e with
  | some k => if own k then t.alter k fun r => L.step r e else t
  | none => t

/-- **A table in which events are recorded holds the rows of the ledger.** -/
theorem lookup_record (own : κ → Bool) (t : Table κ ρ) (e : ε) (k : κ) :
    (t.record L own e).lookup k
      = if own k && L.concerns k e then L.step (t.lookup k) e else t.lookup k := by
  unfold record Ledger.concerns
  cases hkey : L.key e with
  | none => simp
  | some k' =>
    by_cases hk : k = k'
    · subst hk
      cases hown : own k with
      | true => simp [lookup_alter, hown]
      | false => simp [hown]
    · have hk' : ¬ k' = k := fun h => hk h.symm
      cases hown : own k' with
      | true => simp [lookup_alter, hown, hk, hk']
      | false => simp [hown, hk']

end Table
