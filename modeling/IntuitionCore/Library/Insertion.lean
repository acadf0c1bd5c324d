import IntuitionCore.Library.Feed
import IntuitionCore.Library.Result
import IntuitionCore.Library.RowBags
import IntuitionCore.Library.Table
import Mathlib.Data.List.Infix

/-!
# Insertions of which the first one counts

A store is filled by insertions that do nothing where something is already
there. Once an event has been inserted, inserting it again does nothing,
whatever was inserted in between: the insertions *settle*. A store that is
filled from an ordered log by such insertions is then, however often stretches
of the log were inserted again, the store filled from a beginning of the log,
each event inserted once.
-/

/-- **Insertions that settle**: an event that has been inserted is not inserted
again. -/
structure Settles {σ ε : Type} (ins : σ → ε → σ) : Prop where
  /-- Inserting an event twice is inserting it once. -/
  again : ∀ s e, ins (ins s e) e = ins s e
  /-- What is settled stays so. -/
  stays : ∀ s e f, ins s e = s → ins (ins s f) e = ins s f

namespace Settles

/-- Events that leave a store as it is leave it so one after the other. -/
theorem foldl_eq_self {σ ε : Type} {ins : σ → ε → σ} {s : σ} {es : List ε}
    (h : ∀ e ∈ es, ins s e = s) : es.foldl ins s = s := by
  induction es with
  | nil => rfl
  | cons e es ih =>
    rw [List.foldl_cons, h e List.mem_cons_self]
    exact ih fun f hf => h f (List.mem_cons_of_mem _ hf)

variable {σ τ ε : Type} {ins : σ → ε → σ} {op : τ → ε → τ} {s : σ} {e : ε} {es fs : List ε}

/-- What is settled stays so through a list of insertions. -/
theorem stays_foldl (h : Settles ins) (hs : ins s e = s) (es : List ε) :
    ins (es.foldl ins s) e = es.foldl ins s := by
  induction es generalizing s with
  | nil => exact hs
  | cons f es ih => exact ih (h.stays s e f hs)

/-- Every event of a list is settled after it. -/
theorem foldl_settled (h : Settles ins) (he : e ∈ es) :
    ins (es.foldl ins s) e = es.foldl ins s := by
  induction es generalizing s with
  | nil => cases he
  | cons f es ih =>
    obtain rfl | he := List.mem_cons.mp he
    · exact h.stays_foldl (h.again s e) es
    · exact ih he

/-- **Events inserted again change nothing.** -/
theorem foldl_again (h : Settles ins) (hsub : ∀ f ∈ fs, f ∈ es) :
    fs.foldl ins (es.foldl ins s) = es.foldl ins s :=
  foldl_eq_self fun f hf => h.foldl_settled (hsub f hf)

/-- **A stretch of a log is inserted into what a beginning of it has filled.**
If the stretch follows a part of that beginning, the result is what a longer
beginning fills. -/
theorem foldl_prefix (h : Settles ins) {done log : List ε} (hdone : done <+: es)
    (hes : es <+: log) (hfs : done ++ fs <+: log) :
    ∃ es', es' <+: log ∧ es <+: es' ∧ done ++ fs <+: es'
      ∧ fs.foldl ins (es.foldl ins s) = es'.foldl ins s := by
  obtain hle | hle := List.prefix_or_prefix_of_prefix hfs hes
  · -- the stretch has been inserted
    refine ⟨es, hes, List.prefix_rfl, hle, h.foldl_again fun f hf => ?_⟩
    exact hle.subset (List.mem_append_right _ hf)
  · -- the stretch begins with what has been inserted of it
    refine ⟨done ++ fs, hfs, hle, List.prefix_rfl, ?_⟩
    obtain ⟨mid, rfl⟩ := hdone
    obtain ⟨rest, rfl⟩ := (List.prefix_append_right_inj done).mp hle
    rw [List.foldl_append, h.foldl_again fun f hf => List.mem_append_right _ hf]
    simp only [List.foldl_append]

/-! ## Insertions made of others -/

/-- Insertions settle if they do as seen through a view that misses nothing. -/
theorem of_view (v : σ → τ) (hv : Function.Injective v) (hop : Settles op)
    (h : ∀ s e, v (ins s e) = op (v s) e) : Settles ins where
  again s e := hv (by rw [h, h, hop.again])
  stays s e f hs := by
    have hvs : op (v s) e = v s := by rw [← h, hs]
    exact hv (by rw [h, h, hop.stays (v s) e f hvs])

/-- Insertions into two stores. -/
theorem prod (hins : Settles ins) (hop : Settles op) :
    Settles fun (s : σ × τ) e => (ins s.1 e, op s.2 e) where
  again s e := Prod.ext (hins.again s.1 e) (hop.again s.2 e)
  stays s e f hs :=
    Prod.ext (hins.stays s.1 e f (congrArg Prod.fst hs)) (hop.stays s.2 e f (congrArg Prod.snd hs))

/-- Insertions of several things at once. -/
theorem several {δ : Type} (h : Settles ins) (parts : δ → List ε) :
    Settles fun s d => (parts d).foldl ins s where
  again s d := h.foldl_again fun e he => he
  stays s d d' hs := by
    -- nothing is missing in the end, so nothing was missing
    have hparts : ∀ e ∈ parts d, ins s e = s := fun e he => by
      have hsettled : ins ((parts d).foldl ins s) e = (parts d).foldl ins s := h.foldl_settled he
      rwa [hs] at hsettled
    refine foldl_eq_self fun e he => ?_
    exact h.stays_foldl (hparts e he) (parts d')

end Settles

/-- Inserting elements settles. -/
theorem Finset.settles_insert {α ε : Type} [DecidableEq α] (f : ε → α) :
    Settles fun (s : Finset α) e => insert (f e) s where
  again s e := Finset.insert_idem (f e) s
  stays s e f' hs := by
    rw [Finset.insert_eq_self] at hs ⊢
    exact Finset.mem_insert_of_mem hs

/-! ## Stores filled from a log -/

namespace Feed

variable {σ ε : Type} {pos : ε → ℕ} {wants : ε → Bool} {ins : σ → ε → σ} {s₀ s : σ}
  {log es : List ε} {c n : ℕ}

/-- **A store is filled from a log up to a mark and perhaps beyond**: from a
beginning of what is wanted that has everything up to the mark. -/
def Filled (pos : ε → ℕ) (wants : ε → Bool) (ins : σ → ε → σ) (s₀ : σ) (log : List ε) (c : ℕ)
    (s : σ) : Prop :=
  ∃ es, (upTo pos c log).filter wants <+: es ∧ es <+: log.filter wants ∧ s = es.foldl ins s₀

/-- A store that nothing has been inserted into is filled up to a mark before
the log. -/
theorem Filled.start (h : ∀ e ∈ log, c < pos e) : Filled pos wants ins s₀ log c s₀ :=
  ⟨[], by rw [upTo_eq_nil h]; exact List.prefix_rfl, List.nil_prefix, rfl⟩

/-- The log grows after the mark. -/
theorem Filled.grow (h : Filled pos wants ins s₀ log c s) (hes : ∀ e ∈ es, c < pos e) :
    Filled pos wants ins s₀ (log ++ es) c s := by
  obtain ⟨done, hup, hlog, rfl⟩ := h
  refine ⟨done, ?_, ?_, rfl⟩
  · rw [upTo_append, upTo_eq_nil hes, List.append_nil]
    exact hup
  · rw [List.filter_append]
    exact hlog.trans (List.prefix_append _ _)

/-- What lies up to the mark and a poll are a beginning of what is wanted. -/
theorem upTo_append_poll_isPrefix (h : InOrder pos log) :
    (upTo pos c log).filter wants ++ poll pos wants c n log <+: log.filter wants := by
  have hsplit := upTo_append_after (h.filter wants) c
  rw [upTo_filter] at hsplit
  have hpoll := (List.prefix_append_right_inj ((upTo pos c log).filter wants)).mpr
    (List.take_prefix n (after pos c (log.filter wants)))
  rw [hsplit] at hpoll
  exact hpoll

/-- **A poll is inserted, and the mark stays or is moved.** -/
theorem Filled.poll (h : Filled pos wants ins s₀ log c s) (hins : Settles ins)
    (hord : InOrder pos log) :
    Filled pos wants ins s₀ log c ((poll pos wants c n log).foldl ins s)
      ∧ ∀ hne : Feed.poll pos wants c n log ≠ [],
        Filled pos wants ins s₀ log (pos ((Feed.poll pos wants c n log).getLast hne))
          ((Feed.poll pos wants c n log).foldl ins s) := by
  obtain ⟨done, hup, hlog, rfl⟩ := h
  obtain ⟨done', hlog', -, hpoll, heq⟩ :=
    hins.foldl_prefix (s := s₀) hup hlog (upTo_append_poll_isPrefix (n := n) hord)
  refine ⟨⟨done', (List.prefix_append _ _).trans hpoll, hlog', heq⟩, fun hne => ?_⟩
  refine ⟨done', ?_, hlog', heq⟩
  rw [upTo_getLast_poll hord hne]
  exact hpoll

/-- **Where everything wanted lies up to the mark, the store is filled from all
of it.** -/
theorem Filled.eq_of_read (h : Filled pos wants ins s₀ log c s)
    (hread : ∀ e ∈ log, wants e = true → pos e ≤ c) : s = (log.filter wants).foldl ins s₀ := by
  obtain ⟨done, hup, hlog, rfl⟩ := h
  have hall : (upTo pos c log).filter wants = log.filter wants := by
    rw [← upTo_filter]
    refine upTo_eq_self fun e he => ?_
    obtain ⟨hmem, hwants⟩ := List.mem_filter.mp he
    exact hread e hmem hwants
  rw [hall] at hup
  rw [hlog.eq_of_length_le hup.length_le]

end Feed

/-! ## Tables -/

namespace Table

variable {κ ρ ε : Type} [DecidableEq κ]

/-- Insert a row unless there is one of its key; there may be none to
insert. -/
def insertEntry (t : Table κ ρ) : Option (κ × ρ) → Table κ ρ
  | some (k, r) => t.insertIfAbsent k r
  | none => t

theorem lookup_insertIfAbsent (t : Table κ ρ) (k k' : κ) (r : ρ) :
    (t.insertIfAbsent k r).lookup k' = if k' = k then some ((t.lookup k).getD r)
      else t.lookup k' :=
  t.lookup_upsert k k' _

/-- A row that is there stays as it is. -/
theorem lookup_insertEntry_of_some {t : Table κ ρ} {k : κ} {r : ρ} (h : t.lookup k = some r)
    (entry : Option (κ × ρ)) : (t.insertEntry entry).lookup k = some r := by
  cases entry with
  | none => exact h
  | some kr =>
    show (t.insertIfAbsent kr.1 kr.2).lookup k = _
    rw [lookup_insertIfAbsent]
    by_cases hk : k = kr.1
    · rw [if_pos hk, ← hk, h]
      rfl
    · rw [if_neg hk, h]

/-- Inserting where there is a row does nothing, and conversely. -/
theorem insertEntry_eq_self {t : Table κ ρ} {k : κ} {r : ρ} :
    t.insertEntry (some (k, r)) = t ↔ t.lookup k ≠ none := by
  constructor
  · intro h
    rw [← h]
    show (t.insertIfAbsent k r).lookup k ≠ none
    rw [lookup_insertIfAbsent, if_pos rfl]
    exact Option.some_ne_none _
  · intro h
    obtain ⟨r', hr'⟩ := Option.ne_none_iff_exists'.mp h
    refine Finmap.ext_lookup fun k' => ?_
    show (t.insertIfAbsent k r).lookup k' = _
    rw [lookup_insertIfAbsent]
    by_cases hk : k' = k
    · rw [if_pos hk, hk, hr']
      rfl
    · rw [if_neg hk]

/-- **Inserting rows unless they are there settles.** -/
theorem settles_insertEntry (entry : ε → Option (κ × ρ)) :
    Settles fun (t : Table κ ρ) e => t.insertEntry (entry e) where
  again t e := by
    cases he : entry e with
    | none => rfl
    | some kr =>
      refine insertEntry_eq_self.mpr ?_
      show (t.insertIfAbsent kr.1 kr.2).lookup kr.1 ≠ none
      rw [lookup_insertIfAbsent, if_pos rfl]
      exact Option.some_ne_none _
  stays t e f hs := by
    cases he : entry e with
    | none => rfl
    | some kr =>
      rw [he] at hs
      obtain ⟨r, hr⟩ := Option.ne_none_iff_exists'.mp (insertEntry_eq_self.mp hs)
      refine insertEntry_eq_self.mpr ?_
      rw [lookup_insertEntry_of_some hr]
      exact Option.some_ne_none _

/-- A row that is there stays as it is through a list of insertions. -/
theorem lookup_foldl_insertEntry_of_some {t : Table κ ρ} {k : κ} {r : ρ}
    (h : t.lookup k = some r) (entry : ε → Option (κ × ρ)) (es : List ε) :
    (es.foldl (fun t e => t.insertEntry (entry e)) t).lookup k = some r := by
  induction es generalizing t with
  | nil => exact h
  | cons e es ih => exact ih (lookup_insertEntry_of_some h _)

/-- **Which keys there are in the end**: those there were, and those of the
events. -/
theorem lookup_foldl_insertEntry_ne_none {t : Table κ ρ} {k : κ} (entry : ε → Option (κ × ρ))
    (es : List ε) :
    (es.foldl (fun t e => t.insertEntry (entry e)) t).lookup k ≠ none
      ↔ t.lookup k ≠ none ∨ ∃ e ∈ es, ∃ r, entry e = some (k, r) := by
  induction es generalizing t with
  | nil => simp
  | cons e es ih =>
    rw [List.foldl_cons, ih]
    simp only [List.mem_cons, exists_eq_or_imp, ← or_assoc]
    refine or_congr_left ?_
    cases he : entry e with
    | none => simp [insertEntry]
    | some kr =>
      show (t.insertIfAbsent kr.1 kr.2).lookup k ≠ none ↔ _
      rw [lookup_insertIfAbsent]
      by_cases hk : k = kr.1
      · rw [if_pos hk]
        exact iff_of_true (Option.some_ne_none _) (.inr ⟨kr.2, by rw [hk]⟩)
      · rw [if_neg hk]
        exact (or_iff_left fun ⟨r, hr⟩ => hk (congrArg Prod.fst (Option.some.inj hr)).symm).symm

/-- **The first insertion at a key counts.** -/
theorem lookup_foldl_insertEntry_first {t : Table κ ρ} {k : κ} {r : ρ} {e : ε}
    (entry : ε → Option (κ × ρ)) {before : List ε} (after : List ε) (ht : t.lookup k = none)
    (hbefore : ∀ f ∈ before, ∀ r', entry f ≠ some (k, r')) (he : entry e = some (k, r)) :
    ((before ++ e :: after).foldl (fun t e => t.insertEntry (entry e)) t).lookup k = some r := by
  rw [List.foldl_append, List.foldl_cons]
  refine lookup_foldl_insertEntry_of_some ?_ entry after
  have hnone : (before.foldl (fun t e => t.insertEntry (entry e)) t).lookup k = none := by
    by_contra hsome
    obtain hsome | ⟨f, hf, r', hr'⟩ := (lookup_foldl_insertEntry_ne_none entry before).mp hsome
    · exact hsome ht
    · exact hbefore f hf r' hr'
  rw [he]
  show ((before.foldl _ t).insertIfAbsent k r).lookup k = _
  rw [lookup_insertIfAbsent, if_pos rfl, hnone]
  rfl

/-- **A table grows by some rows**: it keeps what it has, any other row is one of them, and
at their keys there are rows. -/
structure Adds (t : Table κ ρ) (rows : κ → ρ → Prop) (t' : Table κ ρ) : Prop where
  kept : ∀ k r, t.lookup k = some r → t'.lookup k = some r
  added : ∀ k r, t'.lookup k = some r → t.lookup k = some r ∨ rows k r
  present : ∀ k r, rows k r → t'.lookup k ≠ none

theorem Adds.refl (t : Table κ ρ) : Adds t (fun _ _ => False) t :=
  ⟨fun _ _ h => h, fun _ _ h => .inl h, fun _ _ h => h.elim⟩

/-- Rows that are there stay there. -/
theorem Adds.ne_none {t t' : Table κ ρ} {rows : κ → ρ → Prop} (h : Adds t rows t') {k : κ}
    (hk : t.lookup k ≠ none) : t'.lookup k ≠ none := by
  obtain ⟨r, hr⟩ := Option.ne_none_iff_exists'.mp hk
  rw [h.kept k r hr]
  exact Option.some_ne_none r

theorem Adds.trans {t t' t'' : Table κ ρ} {rows rows' : κ → ρ → Prop} (h : Adds t rows t')
    (h' : Adds t' rows' t'') : Adds t (fun k r => rows k r ∨ rows' k r) t'' where
  kept k r hr := h'.kept k r (h.kept k r hr)
  added k r hr := by
    obtain hr | hr := h'.added k r hr
    · exact (h.added k r hr).imp_right .inl
    · exact .inr (.inr hr)
  present k r := Or.rec (fun hr => h'.ne_none (h.present k r hr)) (h'.present k r)

theorem Adds.congr {t t' : Table κ ρ} {rows rows' : κ → ρ → Prop} (h : Adds t rows t')
    (hrows : ∀ k r, rows k r ↔ rows' k r) : Adds t rows' t' where
  kept := h.kept
  added k r hr := (h.added k r hr).imp_right (hrows k r).mp
  present k r hr := h.present k r ((hrows k r).mpr hr)

/-- An insertion unless there is a row adds rows of its key. -/
theorem adds_insertIfAbsent (t : Table κ ρ) {k : κ} {r : ρ} {rows : κ → ρ → Prop}
    (hrow : rows k r) (hkey : ∀ k' r', rows k' r' → k' = k) :
    Adds t rows (t.insertIfAbsent k r) where
  kept k' r' hr := lookup_insertEntry_of_some hr (some (k, r))
  added k' r' hr := by
    rw [lookup_insertIfAbsent] at hr
    by_cases hk : k' = k
    · rw [if_pos hk] at hr
      cases hold : t.lookup k with
      | none =>
        rw [hold] at hr
        exact .inr (hk ▸ Option.some.inj hr ▸ hrow)
      | some old =>
        rw [hold] at hr
        exact .inl (by rw [hk, hold]; exact hr)
    · rw [if_neg hk] at hr
      exact .inl hr
  present k' r' h := by
    rw [hkey k' r' h, lookup_insertIfAbsent, if_pos rfl]
    exact Option.some_ne_none _

/-- A list of changes each of which adds its rows adds them all. -/
theorem Adds.foldl {step : Table κ ρ → ε → Table κ ρ} {rows : ε → κ → ρ → Prop} {es : List ε}
    (h : ∀ t, ∀ e ∈ es, Adds t (rows e) (step t e)) (t : Table κ ρ) :
    Adds t (fun k r => ∃ e ∈ es, rows e k r) (es.foldl step t) := by
  induction es generalizing t with
  | nil => exact (Adds.refl t).congr (by simp)
  | cons e es ih =>
    refine ((h t e List.mem_cons_self).trans
      (ih (fun t f hf => h t f (List.mem_cons_of_mem e hf)) _)).congr (by simp)

/-- The same where a change may fail, and the table is part of what is changed. -/
theorem Adds.foldlM {τ err : Type} {view : τ → Table κ ρ} {f : τ → ε → Except err τ}
    {rows : ε → κ → ρ → Prop} {es : List ε}
    (h : ∀ e ∈ es, ∀ s s', f s e = .ok s' → Adds (view s) (rows e) (view s')) {s s' : τ}
    (hs : es.foldlM f s = .ok s') : Adds (view s) (fun k r => ∃ e ∈ es, rows e k r) (view s') := by
  induction es generalizing s with
  | nil =>
    cases hs
    exact (Adds.refl _).congr (by simp)
  | cons e es ih =>
    rw [List.foldlM_cons] at hs
    obtain ⟨mid, hmid, hs⟩ := Result.bind_eq_ok.mp hs
    exact ((h e List.mem_cons_self s mid hmid).trans
      (ih (fun f hf => h f (List.mem_cons_of_mem e hf)) hs)).congr (by simp)

/-- **What two beginnings of a list leave at a key of both is the same.** -/
theorem lookup_foldl_insertEntry_agree {t : Table κ ρ} {k : κ} {entry : ε → Option (κ × ρ)}
    {es fs log : List ε} (hes : es <+: log) (hfs : fs <+: log)
    (he : ∃ e ∈ es, ∃ r, entry e = some (k, r)) (hf : ∃ e ∈ fs, ∃ r, entry e = some (k, r)) :
    (es.foldl (fun t e => t.insertEntry (entry e)) t).lookup k
      = (fs.foldl (fun t e => t.insertEntry (entry e)) t).lookup k := by
  have hlonger : ∀ {es fs : List ε}, es <+: fs → (∃ e ∈ es, ∃ r, entry e = some (k, r)) →
      (fs.foldl (fun t e => t.insertEntry (entry e)) t).lookup k
        = (es.foldl (fun t e => t.insertEntry (entry e)) t).lookup k := by
    rintro es _ ⟨rest, rfl⟩ he
    obtain ⟨r, hr⟩ := Option.ne_none_iff_exists'.mp
      ((lookup_foldl_insertEntry_ne_none (t := t) entry es).mpr (.inr he))
    rw [List.foldl_append, hr]
    exact lookup_foldl_insertEntry_of_some hr entry rest
  obtain hle | hle := List.prefix_or_prefix_of_prefix hes hfs
  · exact (hlonger hle he).symm
  · exact hlonger hle hf

/-- **Rows of different keys are all there**, with what was there before. -/
theorem rows_foldl_insertEntry (entry : ε → Option (κ × ρ)) {es : List ε} {t : Table κ ρ}
    (hnodup : ((es.filterMap entry).map Prod.fst).Nodup)
    (ht : ∀ row ∈ es.filterMap entry, t.lookup row.1 = none) :
    (es.foldl (fun t e => t.insertEntry (entry e)) t).rows = t.rows + es.filterMap entry := by
  induction es generalizing t with
  | nil => exact (add_zero _).symm
  | cons e es ih =>
    cases he : entry e with
    | none =>
      rw [List.filterMap_cons_none he] at hnodup ht ⊢
      rw [List.foldl_cons, he]
      exact ih hnodup ht
    | some row =>
      obtain ⟨k, r⟩ := row
      rw [List.filterMap_cons_some he] at hnodup ht ⊢
      obtain ⟨hk, hrest⟩ := List.nodup_cons.mp hnodup
      obtain ⟨hnone, ht⟩ := List.forall_mem_cons.mp ht
      have hins : (t.insertIfAbsent k r).rows = (k, r) ::ₘ t.rows := by
        rw [rows, entries_insertIfAbsent (Finmap.lookup_eq_none.mp hnone), Multiset.map_cons]
        rfl
      rw [List.foldl_cons, he]
      show (es.foldl _ (t.insertIfAbsent k r)).rows = _
      have hfree : ∀ row ∈ es.filterMap entry, (t.insertIfAbsent k r).lookup row.1 = none := by
        intro row hrow
        have hne : row.1 ≠ k := fun heq =>
          hk (List.mem_map.mpr ⟨row, hrow, heq⟩)
        rw [lookup_insertIfAbsent, if_neg hne]
        exact ht row hrow
      rw [ih hrest hfree, hins, Multiset.cons_add, ← Multiset.cons_coe, Multiset.add_cons]

end Table
