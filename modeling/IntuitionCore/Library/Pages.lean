import IntuitionCore.Library.Feed
import Mathlib.Data.List.Flatten
import Mathlib.Data.List.Perm.Basic
import Mathlib.Data.List.Sort

/-!
# Pages of a log that is stored out of order

The rows of a log need not be stored in order. A query puts them in order and returns the
first of them. Where they are spread over several tables, a query may take the first of each
table before it puts those in order: a row among the first of all is among the first of its
own table, so no row of the page is missed.

A reader that polls from the last row of its page before moves through the log page by page,
and its pages make up what lies after its mark.
-/

namespace Feed

variable {ε β : Type} {pos : ε → ℕ} {log rows es : List ε} {c n : ℕ} {wants : ε → Bool}

/-- Rows in ascending order of their positions. -/
def arrange (pos : ε → ℕ) (rows : List ε) : List ε := rows.mergeSort fun a b => pos a ≤ pos b

/-- The first rows in ascending order of their positions, at most `n` of them. -/
def first (pos : ε → ℕ) (n : ℕ) (rows : List ε) : List ε := (arrange pos rows).take n

/-! ## Rows in order -/

theorem arrange_perm (pos : ε → ℕ) (rows : List ε) : (arrange pos rows).Perm rows :=
  List.mergeSort_perm _ _

@[simp] theorem mem_arrange {e : ε} : e ∈ arrange pos rows ↔ e ∈ rows :=
  (arrange_perm pos rows).mem_iff

/-- Rows at different positions are put in order. -/
theorem inOrder_arrange (h : (rows.map pos).Nodup) : InOrder pos (arrange pos rows) := by
  have hle : (arrange pos rows).Pairwise fun a b => pos a ≤ pos b :=
    List.pairwise_mergeSort' (Order.Preimage pos (· ≤ ·)) rows
  have hne : (arrange pos rows).Pairwise fun a b => pos a ≠ pos b :=
    List.pairwise_map.mp (((arrange_perm pos rows).map pos).nodup_iff.mpr h)
  exact (hle.and hne).imp fun hab => lt_of_le_of_ne hab.1 hab.2

/-- Positions that increase are different. -/
theorem InOrder.nodup_map (h : InOrder pos log) : (log.map pos).Nodup :=
  List.pairwise_map.mpr (h.imp ne_of_lt)

theorem InOrder.nodup (h : InOrder pos log) : log.Nodup := h.nodup_map.of_map

section Antisymm

/-- Positions that increase one way do not increase the other way. -/
theorem antisymm_pos (pos : ε → ℕ) : Std.Antisymm fun a b : ε => pos a < pos b :=
  ⟨fun _ _ hab hba => absurd hab hba.asymm⟩

/-- Of two logs, the one with fewer events is a part of the other. -/
theorem InOrder.sublist_of_subset (h : InOrder pos es) (h' : InOrder pos log) (hsub : es ⊆ log) :
    es.Sublist log :=
  have := antisymm_pos pos
  List.sublist_of_subperm_of_pairwise (List.subperm_of_subset h.nodup hsub) h h'

/-- A log is known by its events. -/
theorem InOrder.eq_of_mem_iff (h : InOrder pos es) (h' : InOrder pos log)
    (hmem : ∀ e, e ∈ es ↔ e ∈ log) : es = log :=
  (h.sublist_of_subset h' fun e he => (hmem e).mp he).antisymm
    (h'.sublist_of_subset h fun e he => (hmem e).mpr he)

end Antisymm

/-- Some of the rows are in the order of all of them. -/
theorem arrange_filter (h : (rows.map pos).Nodup) (p : ε → Bool) :
    arrange pos (rows.filter p) = (arrange pos rows).filter p := by
  have hfilter : ((rows.filter p).map pos).Nodup := h.sublist (List.filter_sublist.map pos)
  refine (inOrder_arrange hfilter).eq_of_mem_iff ((inOrder_arrange h).filter p) fun e => ?_
  rw [mem_arrange, List.mem_filter, List.mem_filter, mem_arrange]

/-! ## Limits -/

/-- What is among the first of all is among the first of a part that it is in. -/
theorem mem_take_of_sublist {l l' : List ε} (hsub : l.Sublist l') (hnodup : l'.Nodup) {e : ε}
    (he : e ∈ l'.take n) (hmem : e ∈ l) : e ∈ l.take n := by
  induction hsub generalizing n with
  | slnil => cases hmem
  | @cons l l' x hsub ih =>
    obtain ⟨hx, hnodup⟩ := List.nodup_cons.mp hnodup
    cases n with
    | zero => cases he
    | succ n =>
      obtain rfl | hrest := List.mem_cons.mp he
      · exact absurd (hsub.subset hmem) hx
      · exact (List.take_sublist_take_left (Nat.le_succ n)).subset (ih hnodup hrest hmem)
  | @cons_cons l l' x hsub ih =>
    obtain ⟨hx, hnodup⟩ := List.nodup_cons.mp hnodup
    cases n with
    | zero => cases he
    | succ n =>
      obtain rfl | htail := List.mem_cons.mp hmem
      · exact List.mem_cons_self
      · obtain rfl | hrest := List.mem_cons.mp he
        · exact absurd (hsub.subset htail) hx
        · exact List.mem_cons_of_mem _ (ih hnodup hrest htail)

/-- A part that has the first of all has the same first. -/
theorem take_eq_of_sublist {l l' : List ε} (hsub : l.Sublist l') (hnodup : l'.Nodup)
    (hfirst : l'.take n ⊆ l) : l.take n = l'.take n := by
  induction hsub generalizing n with
  | slnil => rfl
  | @cons l l' x hsub ih =>
    cases n with
    | zero => rfl
    | succ n =>
      have hx := (List.nodup_cons.mp hnodup).1
      exact absurd (hsub.subset (hfirst List.mem_cons_self)) hx
  | @cons_cons l l' x hsub ih =>
    obtain ⟨hx, hnodup⟩ := List.nodup_cons.mp hnodup
    cases n with
    | zero => rfl
    | succ n =>
      rw [List.take_succ_cons, List.take_succ_cons, ih hnodup fun e he => ?_]
      have hmem := hfirst (List.mem_cons_of_mem x he)
      exact (List.mem_cons.mp hmem).resolve_left fun heq => hx (heq ▸ List.mem_of_mem_take he)

/-- **A limit can be pushed into the tables of a union**: the first of the rows that are
first in their own tables are the first of all. -/
theorem first_flatMap_first {tables : List β} {rowsOf : β → List ε}
    (h : ((tables.flatMap rowsOf).map pos).Nodup) (n : ℕ) :
    first pos n (tables.flatMap fun t => first pos n (rowsOf t))
      = first pos n (tables.flatMap rowsOf) := by
  have hall : InOrder pos (arrange pos (tables.flatMap rowsOf)) := inOrder_arrange h
  have htables : InOrder pos (arrange pos (tables.flatMap fun t => first pos n (rowsOf t))) := by
    -- what is taken of the tables is a part of what is in them
    refine inOrder_arrange ?_
    have htake : (tables.flatMap fun t => first pos n (rowsOf t)).Sublist
        (tables.flatMap fun t => arrange pos (rowsOf t)) :=
      List.Sublist.flatMap_right tables fun t _ => List.take_sublist n _
    have hperm : (tables.flatMap fun t => arrange pos (rowsOf t)).Perm (tables.flatMap rowsOf) :=
      List.Perm.flatMap_left tables fun t _ => arrange_perm pos (rowsOf t)
    exact ((hperm.map pos).nodup_iff.mpr h).sublist (htake.map pos)
  have hsub : (arrange pos (tables.flatMap fun t => first pos n (rowsOf t))).Sublist
      (arrange pos (tables.flatMap rowsOf)) := by
    refine htables.sublist_of_subset hall fun e he => ?_
    obtain ⟨t, ht, he⟩ := List.mem_flatMap.mp (mem_arrange.mp he)
    exact mem_arrange.mpr (List.mem_flatMap.mpr
      ⟨t, ht, mem_arrange.mp (List.mem_of_mem_take he)⟩)
  refine take_eq_of_sublist hsub hall.nodup fun e he => ?_
  -- a row of the page is among the first of its own table
  obtain ⟨t, ht, hrow⟩ := List.mem_flatMap.mp (mem_arrange.mp (List.mem_of_mem_take he))
  have htable : (arrange pos (rowsOf t)).Sublist (arrange pos (tables.flatMap rowsOf)) := by
    have hrows : (rowsOf t).Sublist (tables.flatMap rowsOf) := by
      have := (List.singleton_sublist.mpr ht).flatMap rowsOf
      rwa [List.flatMap_singleton] at this
    exact InOrder.sublist_of_subset (inOrder_arrange (h.sublist (hrows.map pos))) hall fun f hf =>
      mem_arrange.mpr (hrows.subset (mem_arrange.mp hf))
  exact mem_arrange.mpr (List.mem_flatMap.mpr
    ⟨t, ht, mem_take_of_sublist htable hall.nodup he (mem_arrange.mpr hrow)⟩)

/-! ## Pages -/

/-- Where a reader polls from after a page: from its last row, if it has one. -/
def next (pos : ε → ℕ) (c : ℕ) (page : List ε) : ℕ := (page.getLast?.map pos).getD c

/-- The rows of `k` pages, each polled from the last row of the one before. -/
def pages (pos : ε → ℕ) (read : ℕ → List ε) : ℕ → ℕ → List ε
  | 0, _ => []
  | k + 1, c => read c ++ pages pos read k (next pos c (read c))

/-- What lies after a page is what lay after its mark, without the page. -/
theorem after_next_poll (h : InOrder pos log) :
    after pos (next pos c (poll pos wants c n log)) (log.filter wants)
      = (after pos c (log.filter wants)).drop n := by
  have hpage : poll pos wants c n log ++ (after pos c (log.filter wants)).drop n
      = after pos c (log.filter wants) := List.take_append_drop n _
  by_cases hnil : poll pos wants c n log = []
  · rw [hnil] at hpage ⊢
    exact hpage.symm
  · have hlast : next pos c (poll pos wants c n log)
        = pos ((poll pos wants c n log).getLast hnil) := by
      rw [next, List.getLast?_eq_some_getLast hnil]
      rfl
    rw [hlast]
    have hmove := upTo_getLast_poll h hnil
    have hsplit := upTo_append_after (h.filter wants)
      (pos ((poll pos wants c n log).getLast hnil))
    rw [upTo_filter, hmove, List.append_assoc, ← upTo_filter] at hsplit
    have hafter := List.append_cancel_left
      (hsplit.trans (upTo_append_after (h.filter wants) c).symm)
    exact List.append_cancel_left (hafter.trans hpage.symm)

/-- **Pages make up what lies after the mark**: each event once, and in order. -/
theorem pages_poll (h : InOrder pos log) (k : ℕ) :
    pages pos (fun c => poll pos wants c n log) k c
      = (after pos c (log.filter wants)).take (k * n) := by
  induction k generalizing c with
  | zero => rw [pages, Nat.zero_mul, List.take_zero]
  | succ k ih =>
    rw [pages, ih, after_next_poll h, Nat.succ_mul, Nat.add_comm, List.take_add]
    rfl

end Feed
