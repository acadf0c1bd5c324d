import IntuitionCore.Library.Query
import Mathlib.Data.List.Flatten
import Mathlib.Data.Multiset.Bind
import Mathlib.Data.Multiset.Filter

/-!
# Bags of rows

What a query selects is a bag of rows. An `ORDER BY` lets them be returned in any order in
which their ranks ascend, so rows of the same rank may come in any order, and in another one
the next time. Where no two rows are of the same rank, there is but one such order, and the
pages of it make it up.

A left join gives a row for each row that it matches, or one without a match. Where a row
matches at most one, it is a function of the row.
-/

/-- An order in which a query may return its rows. -/
structure OrderedBy {α ω : Type} [LE ω] (rank : α → ω) (rows : Multiset α) (out : List α) :
    Prop where
  all : (out : Multiset α) = rows
  ascending : out.Pairwise fun a b => rank a ≤ rank b

/-- Each row with each of those that it matches, or with none. -/
def leftJoin {α β : Type} (rows : Multiset α) (others : Multiset β) (on : α → β → Prop)
    [∀ a b, Decidable (on a b)] : Multiset (α × Option β) :=
  rows.bind fun a =>
    if (others.filter (on a)).card = 0 then {(a, none)}
    else (others.filter (on a)).map fun b => (a, some b)

section Rows

variable {α β ω : Type} {rank : α → ω} {rows : Multiset α} {out out' : List α}

/-- **Rows of different ranks are returned in one order.** -/
theorem OrderedBy.unique [PartialOrder ω] (h : OrderedBy rank rows out)
    (h' : OrderedBy rank rows out') (hrank : ∀ a ∈ rows, ∀ b ∈ rows, rank a = rank b → a = b) :
    out = out' := by
  have hmem : ∀ a ∈ out, a ∈ rows := fun a ha => h.all ▸ Multiset.mem_coe.mpr ha
  have hmem' : ∀ a ∈ out', a ∈ rows := fun a ha => h'.all ▸ Multiset.mem_coe.mpr ha
  refine List.Perm.eq_of_pairwise (fun a b ha hb hab hba => ?_) h.ascending h'.ascending
    (Multiset.coe_eq_coe.mp (h.all.trans h'.all.symm))
  exact hrank a (hmem a ha) b (hmem' b hb) (le_antisymm hab hba)

/-- What is made of each row is in the order of the rows. -/
theorem OrderedBy.map [LE ω] (h : OrderedBy rank rows out) (f : α → β) {rank' : β → ω}
    (hrank : ∀ a, rank' (f a) = rank a) : OrderedBy rank' (rows.map f) (out.map f) where
  all := by rw [← h.all, Multiset.map_coe]
  ascending := List.pairwise_map.mpr (h.ascending.imp fun hab => by rwa [hrank, hrank])

/-- **A row that matches at most one other is joined by a function.** -/
theorem leftJoin_eq_map {others : Multiset β} {on : α → β → Prop} [∀ a b, Decidable (on a b)]
    (f : α → Option β) (hf : ∀ a ∈ rows, others.filter (on a) = (f a).elim 0 ({·})) :
    leftJoin rows others on = rows.map fun a => (a, f a) := by
  have hjoin : ∀ a ∈ rows, (if (others.filter (on a)).card = 0 then {(a, none)}
      else (others.filter (on a)).map fun b => (a, some b) : Multiset (α × Option β))
      = {(a, f a)} := by
    intro a ha
    rw [hf a ha]
    cases f a with
    | none => rfl
    | some b => rfl
  rw [leftJoin, Multiset.bind_congr hjoin, Multiset.bind_singleton]

/-- Where at most one row is selected, that is what is returned. -/
theorem exists_coe_eq_iff {o : Option α} {p : Option α → Prop} :
    (∃ out : List α, (out : Multiset α) = o.elim 0 ({·}) ∧ p out.head?) ↔ p o := by
  constructor
  · rintro ⟨out, hout, hp⟩
    cases o with
    | none =>
      rw [(Multiset.coe_eq_zero _).mp hout] at hp
      exact hp
    | some a =>
      rw [Multiset.coe_eq_singleton.mp hout] at hp
      exact hp
  · intro hp
    cases o with
    | none => exact ⟨[], rfl, hp⟩
    | some a => exact ⟨[a], rfl, hp⟩

/-- **The pages of some rows make up the first of them.** -/
theorem flatMap_page (limit n : ℕ) (rows : List α) :
    ((List.range n).flatMap fun i => page limit (i * limit) rows) = rows.take (n * limit) := by
  induction n with
  | zero => rw [Nat.zero_mul, List.take_zero]; rfl
  | succ n ih =>
    rw [List.range_succ, List.flatMap_append, ih, List.flatMap_singleton, Nat.succ_mul,
      List.take_add]
    rfl

end Rows

namespace Table

variable {κ ρ ω : Type} [DecidableEq κ] {t : Table κ ρ}

/-- The rows of a table, each with its key. -/
def rows (t : Table κ ρ) : Multiset (κ × ρ) := t.entries.map fun entry => (entry.1, entry.2)

theorem mem_rows {row : κ × ρ} : row ∈ t.rows ↔ t.lookup row.1 = some row.2 := by
  obtain ⟨k, r⟩ := row
  rw [rows, Multiset.mem_map]
  constructor
  · rintro ⟨entry, hentry, heq⟩
    cases heq
    exact Finmap.mem_lookup_iff.mpr hentry
  · exact fun h => ⟨⟨k, r⟩, Finmap.mem_lookup_iff.mp h, rfl⟩

omit [DecidableEq κ] in
theorem nodup_rows (t : Table κ ρ) : t.rows.Nodup :=
  t.nodup_entries.map fun _ _ h => Sigma.ext (Prod.ext_iff.mp h).1 (heq_of_eq (Prod.ext_iff.mp h).2)

/-- Rows are the same if they have the same key. -/
theorem eq_of_mem_rows {a b : κ × ρ} (ha : a ∈ t.rows) (hb : b ∈ t.rows) (h : a.1 = b.1) :
    a = b := by
  have hrow := mem_rows.mp ha
  rw [h, mem_rows.mp hb, Option.some.injEq] at hrow
  exact Prod.ext h hrow.symm

/-- What is selected is what a filter keeps. -/
theorem rows_select {p : κ → ρ → Prop} [∀ k r, Decidable (p k r)] :
    (t.select p).rows = t.rows.filter fun row => p row.1 row.2 :=
  (Multiset.Nodup.ext (nodup_rows _) (t.nodup_rows.filter _)).mpr fun row => by
    rw [mem_rows, lookup_select, Multiset.mem_filter, mem_rows]

/-- **A key is of at most one row**, so a condition on the key keeps one at most. -/
theorem filter_rows_key (k : κ) (p : ρ → Prop) [DecidablePred p] :
    (t.rows.filter fun row => row.1 = k ∧ p row.2)
      = (((t.select fun _ r => p r).lookup k).map fun r => (k, r)).elim 0 ({·}) := by
  have hnodup : ((((t.select fun _ r => p r).lookup k).map fun r => (k, r)).elim 0
      ({·} : κ × ρ → Multiset (κ × ρ))).Nodup := by
    cases (t.select fun _ r => p r).lookup k with
    | none => exact Multiset.nodup_zero
    | some r => exact Multiset.nodup_singleton _
  refine (Multiset.Nodup.ext (t.nodup_rows.filter _) hnodup).mpr fun row => ?_
  obtain ⟨k', r⟩ := row
  rw [Multiset.mem_filter, mem_rows]
  have hselect : ∀ r, (t.select fun _ r => p r).lookup k = some r ↔ t.lookup k = some r ∧ p r :=
    fun r => lookup_select
  cases h : (t.select fun _ r => p r).lookup k with
  | none =>
    refine iff_of_false ?_ (Multiset.notMem_zero _)
    rintro ⟨hrow, rfl, hp⟩
    exact absurd (h.symm.trans ((hselect r).mpr ⟨hrow, hp⟩)) (by simp)
  | some r' =>
    refine Iff.trans ?_ Multiset.mem_singleton.symm
    constructor
    · rintro ⟨hrow, rfl, hp⟩
      rw [Option.some.inj (h.symm.trans ((hselect r).mpr ⟨hrow, hp⟩))]
    · rintro heq
      cases heq
      exact ⟨((hselect r).mp h).1, rfl, ((hselect r).mp h).2⟩

section OrderBy

variable [LinearOrder κ] [LinearOrder ω] {rank : κ → ρ → ω}

/-- A place among those of the rows is of a row. -/
theorem exists_of_mem_places {x : WithBot ω ×ₗ κ} (h : x ∈ (t.keys.image (t.place rank)).sort) :
    ∃ k r, t.lookup k = some r ∧ x = toLex ((rank k r : WithBot ω), k) := by
  obtain ⟨k, hk, rfl⟩ := Finset.mem_image.mp ((Finset.mem_sort _).mp h)
  obtain ⟨r, hr⟩ := Finmap.mem_iff.mp (Finmap.mem_keys.mp hk)
  exact ⟨k, r, hr, by rw [place, hr]; rfl⟩

theorem mem_orderBy {row : κ × ρ} : row ∈ t.orderBy rank ↔ t.lookup row.1 = some row.2 := by
  rw [orderBy, List.mem_filterMap]
  constructor
  · rintro ⟨x, hx, hrow⟩
    obtain ⟨r, hr, rfl⟩ := Option.map_eq_some_iff.mp hrow
    exact hr
  · intro h
    refine ⟨toLex ((rank row.1 row.2 : WithBot ω), row.1), ?_, by simp [h]⟩
    refine (Finset.mem_sort _).mpr (Finset.mem_image.mpr ⟨row.1, ?_, ?_⟩)
    · exact Finmap.mem_keys.mpr (Finmap.mem_iff.mpr ⟨row.2, h⟩)
    · rw [place, h]
      rfl

theorem nodup_orderBy (t : Table κ ρ) (rank : κ → ρ → ω) : (t.orderBy rank).Nodup := by
  have hkeys : ((t.keys.image (t.place rank)).sort.map fun x => (ofLex x).2).Nodup := by
    refine List.Nodup.map_on (fun x hx y hy h => ?_) (Finset.sort_nodup _ _)
    obtain ⟨k, r, hr, rfl⟩ := exists_of_mem_places hx
    obtain ⟨k', r', hr', rfl⟩ := exists_of_mem_places hy
    obtain rfl : k = k' := h
    rw [Option.some.inj (hr.symm.trans hr')]
  have horder : t.orderBy rank = ((t.keys.image (t.place rank)).sort.map
      fun x => (ofLex x).2).filterMap fun k => (t.lookup k).map fun r => (k, r) := by
    rw [List.filterMap_map]
    rfl
  rw [horder]
  refine hkeys.filterMap fun k k' row hrow hrow' => ?_
  obtain ⟨r, -, rfl⟩ := Option.map_eq_some_iff.mp hrow
  obtain ⟨r', -, heq⟩ := Option.map_eq_some_iff.mp hrow'
  exact (Prod.ext_iff.mp heq).1.symm

/-- **The rows of a table in order are an order of its rows.** -/
theorem orderedBy_orderBy (t : Table κ ρ) (rank : κ → ρ → ω) :
    OrderedBy (fun row => rank row.1 row.2) t.rows (t.orderBy rank) where
  all := (Multiset.Nodup.ext (Multiset.coe_nodup.mpr (nodup_orderBy t rank)) t.nodup_rows).mpr
    fun row => by rw [Multiset.mem_coe, mem_orderBy, mem_rows]
  ascending := by
    refine List.pairwise_filterMap.mpr ((Finset.pairwise_sort _ _).imp_of_mem ?_)
    intro x y hx hy hle a ha b hb
    obtain ⟨k, r, hr, rfl⟩ := exists_of_mem_places hx
    obtain ⟨k', r', hr', rfl⟩ := exists_of_mem_places hy
    obtain rfl : (k, r) = a := by simpa [hr] using ha
    obtain rfl : (k', r') = b := by simpa [hr'] using hb
    exact WithBot.coe_le_coe.mp (Prod.Lex.monotone_fst _ _ hle)

end OrderBy

end Table
