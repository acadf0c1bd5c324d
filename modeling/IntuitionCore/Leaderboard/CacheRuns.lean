import IntuitionCore.Leaderboard.Cache

/-!
# Calls of the refresh that overlap

Between the statements of one call, others read, delete, insert, flip pointers, commit and
fail. What is committed stays in order all the same: each version of a board consists of rows
of one call. A commit replaces a version by the rows it has inserted, if there are any: the
first of them has number 1, so what was there before has been deleted, and a version is
deleted as a whole.
-/

namespace LeaderboardCache

variable {ε : Type}

/-! ## What holds of the cache -/

variable {s s' : LeaderboardCache ε} {t u : ℕ} {c : Call ε} {board : Board} {version : ℕ}

/-- A version of a board consists of the rows that one call has computed, or of none. -/
def Holds (cache : LockedTable CacheKey ε) (board : Board) (version : ℕ)
    (o : Option (ℕ × List ε)) : Prop :=
  ∀ rank, cache.rows.lookup (.of board version rank)
    = o.bind fun w => (numbered w.2 rank).map fun entry => (w.1, entry)

/-- What holds of the cache: each version is whole, and of a call that was committed; what
holds of each call that is open; and the pointers are those of the last call that was
committed, to the rows it has computed if there are any. -/
structure Ok (s : LeaderboardCache ε) : Prop where
  whole : ∀ board version, ∃ o, Holds s.cache board version o
    ∧ ∀ w ∈ o, ∃ call ∈ s.history, call.1 = w.1 ∧ result call board = w.2
  calls : ∀ t c, s.calls.lookup t = some c →
    t ∉ s.committed ∧ c.Ok s.cache s.versions s.committed t
  cacheLocks : ∀ k t, s.cache.locks.lookup k = some t → s.calls.lookup t ≠ none
  versionLocks : ∀ k t, s.versions.locks.lookup k = some t → s.calls.lookup t ≠ none
  fresh : s.history = [] → ∀ board, s.versions.rows.lookup board = none
  last : ∀ call ∈ s.history.head?, ∀ board ∈ boards, ∃ w, call.2.lookup board = some w
    ∧ s.versions.rows.lookup board = some (call.1, w.1)
    ∧ (w.2 ≠ [] → Holds s.cache board w.1 (some (call.1, w.2)))

theorem ok_new : Ok ({} : LeaderboardCache ε) where
  whole _ _ := ⟨none, fun _ => rfl, nofun⟩
  calls _ _ h := nomatch h
  cacheLocks _ _ h := nomatch h
  versionLocks _ _ h := nomatch h
  fresh _ _ := rfl
  last _ h := nomatch h

/-- Every row was written by a call that was committed. -/
theorem Ok.writer_mem (h : s.Ok) {k : CacheKey} {r : ℕ × ε} (hr : s.cache.rows.lookup k = some r) :
    r.1 ∈ s.committed := by
  obtain ⟨o, ho, hmem⟩ := h.whole k.board k.cacheVersion
  have hk : s.cache.rows.lookup k = _ := ho k.rank
  rw [hr] at hk
  obtain ⟨w, hw, hrow⟩ := Option.bind_eq_some_iff.mp hk.symm
  obtain ⟨entry, -, rfl⟩ := Option.map_eq_some_iff.mp hrow
  obtain ⟨call, hcall, heq, -⟩ := hmem w hw
  exact List.mem_map.mpr ⟨call, hcall, heq⟩

theorem Ok.oneWriter (h : s.Ok) : s.cache.OneWriter CacheKey.slot := by
  intro k k' u u' x x' hslot hk hk'
  obtain ⟨o, ho, -⟩ := h.whole k.board k.cacheVersion
  have hrow : s.cache.rows.lookup k = _ := ho k.rank
  have hrow' := ho k'.rank
  have hkey : k' = .of k.board k.cacheVersion k'.rank :=
    CacheKey.eq_of_iff.mpr ⟨congrArg Prod.fst hslot.symm, congrArg Prod.snd hslot.symm, rfl⟩
  rw [hk] at hrow
  rw [← hkey, hk'] at hrow'
  obtain ⟨w, hw, heq⟩ := Option.bind_eq_some_iff.mp hrow.symm
  obtain ⟨w', hw', heq'⟩ := Option.bind_eq_some_iff.mp hrow'.symm
  obtain rfl := Option.some.inj (hw.symm.trans hw')
  obtain ⟨entry, -, hpair⟩ := Option.map_eq_some_iff.mp heq
  obtain ⟨entry', -, hpair'⟩ := Option.map_eq_some_iff.mp heq'
  exact (congrArg Prod.fst hpair).symm.trans (congrArg Prod.fst hpair')

/-- **What a commit leaves of a version**: the rows that were inserted if there are any, and
else all that were there, or none. -/
theorem Ok.holds_commit (h : s.Ok) (hc : s.calls.lookup t = some c) (hleft : c.phase.left = ∅)
    (board : Board) (version : ℕ) {o : Option (ℕ × List ε)}
    (ho : Holds s.cache board version o) :
    (∀ es, c.written.lookup board = some (version, es) → es ≠ [] →
        Holds (s.cache.commit t) board version (some (t, es)))
      ∧ ((∀ es, c.written.lookup board = some (version, es) → es = []) →
        Holds (s.cache.commit t) board version o
          ∨ Holds (s.cache.commit t) board version none) := by
  have hok := (h.calls t c hc).2
  have htogether := hok.together
  rw [hleft] at htogether
  have hslots := htogether.deleted_or_left h.oneWriter (board, version)
  -- what the commit leaves under a key that is locked, and under one that is not
  have hlocked : ∀ {rank}, s.cache.locks.lookup (.of board version rank) = some t →
      (s.cache.commit t).rows.lookup (.of board version rank)
        = (c.row (.of board version rank)).map fun entry => (t, entry) := by
    intro rank hlock
    rw [LockedTable.rows_commit, if_pos hlock, ← hok.inserted, LockedTable.inserted,
      if_pos hlock]
  have hunlocked : ∀ {rank}, s.cache.locks.lookup (.of board version rank) ≠ some t →
      (s.cache.commit t).rows.lookup (.of board version rank)
        = s.cache.rows.lookup (.of board version rank)
      ∧ c.row (.of board version rank) = none := by
    intro rank hlock
    rw [LockedTable.rows_commit, if_neg hlock, ← hok.inserted, LockedTable.inserted,
      if_neg hlock]
    exact ⟨rfl, rfl⟩
  constructor
  · intro es hes hne rank
    have hrow : ∀ rank, c.row (.of board version rank) = numbered es rank := by
      intro rank
      show (c.written.lookup board).bind _ = _
      rw [hes]
      exact if_pos rfl
    have hfirst : s.cache.locks.lookup (.of board version 1) = some t := by
      by_contra hlock
      exact numbered_one hne ((hrow 1).symm.trans (hunlocked hlock).2)
    -- the first row of the version, if there was one, is locked, and so are all
    have hall : ∀ rank, s.cache.rows.lookup (.of board version rank) ≠ none →
        s.cache.locks.lookup (.of board version rank) = some t := by
      intro rank hsome
      refine hslots.elim (fun hdeleted => hdeleted _ rfl hsome) fun hkept => ?_
      refine absurd hfirst (hkept _ rfl ?_)
      rw [ho rank] at hsome
      rw [ho 1]
      cases ho' : o with
      | none => exact absurd (by rw [ho']; rfl) hsome
      | some w =>
        rw [ho'] at hsome
        have hw : w.2 ≠ [] := by
          intro hnil
          refine hsome ?_
          show (numbered w.2 rank).map _ = none
          rw [hnil, numbered_nil]
          rfl
        exact fun hnone => numbered_one hw (Option.map_eq_none_iff.mp hnone)
    by_cases hlock : s.cache.locks.lookup (.of board version rank) = some t
    · rw [hlocked hlock, hrow]
      rfl
    · obtain ⟨hrows, hnone⟩ := hunlocked hlock
      rw [hrows, not_not.mp fun hsome => hlock (hall rank hsome)]
      show none = (numbered es rank).map _
      rw [← hrow, hnone]
      rfl
  · intro hnil
    have hrow : ∀ rank, c.row (.of board version rank) = none := by
      intro rank
      show (c.written.lookup board).bind _ = _
      cases hw : c.written.lookup board with
      | none => rfl
      | some w =>
        obtain ⟨v, es⟩ := w
        by_cases hv : version = v
        · subst hv
          rw [hnil es hw]
          show (if version = version then numbered [] rank else none) = none
          rw [numbered_nil, ite_self]
        · exact if_neg hv
    obtain hdeleted | hkept := hslots
    · refine .inr fun rank => ?_
      by_cases hlock : s.cache.locks.lookup (.of board version rank) = some t
      · rw [hlocked hlock, hrow]
        rfl
      · rw [(hunlocked hlock).1]
        exact not_not.mp fun hsome => hlock (hdeleted _ rfl hsome)
    · refine .inl fun rank => ?_
      by_cases hlock : s.cache.locks.lookup (.of board version rank) = some t
      · rw [hlocked hlock, hrow, ← ho rank]
        exact (not_not.mp fun hsome => hkept _ rfl hsome hlock).symm
      · rw [(hunlocked hlock).1]
        exact ho rank

/-- A board is done with in a call that has none left. -/
theorem Call.Ok.flipped_of_done {cache : LockedTable CacheKey ε} {versions : LockedTable Board ℕ}
    {ids : List ℕ} (h : c.Ok cache versions ids t) (htodo : c.todo = []) (hb : board ∈ boards) :
    ∃ w, c.written.lookup board = some w ∧ versions.inserted t board = some w.1 :=
  h.flipped board hb (.inl (htodo ▸ List.not_mem_nil))

/-- A call begins. -/
theorem Ok.call (h : s.Ok) (hnew : s.calls.lookup t = none) (hid : t ∉ s.committed) :
    Ok { s with calls := s.calls.insert t {} } := by
  have hmem : ∀ {u}, s.calls.lookup u ≠ none →
      (s.calls.insert t ({} : Call ε)).lookup u ≠ none := by
    intro u hu
    by_cases heq : u = t
    · rw [heq, Finmap.lookup_insert]
      exact Option.some_ne_none _
    · rwa [Finmap.lookup_insert_of_ne _ heq]
  refine ⟨h.whole, fun u c hc => ?_, fun k u hk => hmem (h.cacheLocks k u hk),
    fun k u hk => hmem (h.versionLocks k u hk), h.fresh, h.last⟩
  by_cases heq : u = t
  · obtain rfl : {} = c := by
      rw [heq, Finmap.lookup_insert] at hc
      exact Option.some.inj hc
    exact ⟨heq ▸ hid, Call.ok_new fun k hlock => h.cacheLocks k u hlock (heq ▸ hnew)⟩
  · rw [Finmap.lookup_insert_of_ne _ heq] at hc
    exact h.calls u c hc

/-- A call goes on. -/
theorem Ok.move (h : s.Ok) (hc : s.calls.lookup t = some c) (hhead : c.todo.head? = some board)
    {cache' : LockedTable CacheKey ε} {versions' : LockedTable Board ℕ} {c' : Call ε}
    (hs : c.Advances s.cache s.versions t board cache' versions' c') :
    Ok { s with cache := cache', versions := versions', calls := s.calls.insert t c' } := by
  obtain ⟨hcache, hversions⟩ := hs.writes
  have hrows : cache'.rows = s.cache.rows := by
    obtain rfl | ⟨k, row, -, rfl⟩ := hcache <;> rfl
  have hrows' : versions'.rows = s.versions.rows := by
    obtain rfl | ⟨k, row, -, rfl⟩ := hversions <;> rfl
  have hmem : ∀ {u}, s.calls.lookup u ≠ none ∨ u = t →
      (s.calls.insert t c').lookup u ≠ none := by
    intro u hu
    by_cases heq : u = t
    · rw [heq, Finmap.lookup_insert]
      exact Option.some_ne_none _
    · rw [Finmap.lookup_insert_of_ne _ heq]
      exact hu.resolve_right heq
  refine ⟨fun board version => ?_, fun u d hd => ?_, fun k u hk => hmem ?_, fun k u hk => hmem ?_,
    fun hnil board => ?_, fun call hcall board hb => ?_⟩
  · obtain ⟨o, ho, hres⟩ := h.whole board version
    exact ⟨o, fun rank => hrows ▸ ho rank, hres⟩
  · by_cases heq : u = t
    · obtain rfl : c' = d := by
        rw [heq, Finmap.lookup_insert] at hd
        exact Option.some.inj hd
      obtain ⟨hid, hok⟩ := h.calls t c hc
      rw [heq]
      exact ⟨hid, hok.advances (fun k r hr => h.writer_mem hr) hhead hs⟩
    · rw [Finmap.lookup_insert_of_ne _ heq] at hd
      obtain ⟨hid, hok⟩ := h.calls u d hd
      exact ⟨hid, hok.of_advances hs heq⟩
  · obtain rfl | ⟨k', row, -, rfl⟩ := hcache
    · exact .inl (h.cacheLocks k u hk)
    · rw [LockedTable.locks_write] at hk
      by_cases heq : k = k'
      · rw [if_pos heq] at hk
        exact .inr (Option.some.inj hk).symm
      · rw [if_neg heq] at hk
        exact .inl (h.cacheLocks k u hk)
  · obtain rfl | ⟨k', row, -, rfl⟩ := hversions
    · exact .inl (h.versionLocks k u hk)
    · rw [LockedTable.locks_write] at hk
      by_cases heq : k = k'
      · rw [if_pos heq] at hk
        exact .inr (Option.some.inj hk).symm
      · rw [if_neg heq] at hk
        exact .inl (h.versionLocks k u hk)
  · exact hrows' ▸ h.fresh hnil board
  · obtain ⟨w, hw, hversion, hholds⟩ := h.last call hcall board hb
    exact ⟨w, hw, hrows' ▸ hversion, fun hne rank => hrows ▸ hholds hne rank⟩

/-- A call fails. -/
theorem Ok.abort (h : s.Ok) : Ok
    { s with
      cache := s.cache.abort t
      versions := s.versions.abort t
      calls := s.calls.erase t } := by
  have hmem : ∀ {u}, s.calls.lookup u ≠ none → u ≠ t →
      (s.calls.erase t).lookup u ≠ none := fun hu hne => by
    rwa [Finmap.lookup_erase_ne hne]
  refine ⟨h.whole, fun u d hd => ?_, fun k u hk => ?_, fun k u hk => ?_, h.fresh, h.last⟩
  · have hne : u ≠ t := by
      rintro rfl
      exact absurd ((Finmap.lookup_erase u s.calls).symm.trans hd) (Option.some_ne_none d).symm
    rw [Finmap.lookup_erase_ne hne] at hd
    obtain ⟨hid, hok⟩ := h.calls u d hd
    refine ⟨hid, hok.of_ends (List.Subset.refl _) ⟨hok.together.abort_of_ne hne, fun k => ?_⟩
      fun k => ?_⟩
    · exact LockedTable.inserted_release.trans (if_neg hne)
    · exact LockedTable.inserted_release.trans (if_neg hne)
  · obtain ⟨hlock, hne⟩ := LockedTable.locks_release.mp hk
    exact hmem (h.cacheLocks k u hlock) hne
  · obtain ⟨hlock, hne⟩ := LockedTable.locks_release.mp hk
    exact hmem (h.versionLocks k u hlock) hne

/-- A call is committed. -/
theorem Ok.commit (h : s.Ok) (hc : s.calls.lookup t = some c) (htodo : c.todo = []) : Ok
    { cache := s.cache.commit t
      versions := s.versions.commit t
      calls := s.calls.erase t
      history := (t, c.written) :: s.history } := by
  obtain ⟨hid, hok⟩ := h.calls t c hc
  have hleft := hok.left_done htodo
  refine ⟨fun board version => ?_, fun u d hd => ?_, fun k u hk => ?_, fun k u hk => ?_, nofun,
    fun call hcall board hb => ?_⟩
  · obtain ⟨o, ho, hres⟩ := h.whole board version
    obtain ⟨hnew, hold⟩ := h.holds_commit hc hleft board version ho
    by_cases hes : ∃ es, c.written.lookup board = some (version, es) ∧ es ≠ []
    · obtain ⟨es, hes, hne⟩ := hes
      refine ⟨some (t, es), hnew es hes hne, fun w hw => ?_⟩
      obtain rfl := Option.some.inj hw
      refine ⟨(t, c.written), List.mem_cons_self, rfl, ?_⟩
      show ((c.written.lookup board).map Prod.snd).getD [] = es
      rw [hes]
      rfl
    · have hnil : ∀ es, c.written.lookup board = some (version, es) → es = [] := fun es hw =>
        by_contra fun hne => hes ⟨es, hw, hne⟩
      obtain hsame | hnone := hold hnil
      · refine ⟨o, hsame, fun w hw => ?_⟩
        obtain ⟨call, hcall, hres⟩ := hres w hw
        exact ⟨call, List.mem_cons_of_mem _ hcall, hres⟩
      · exact ⟨none, hnone, nofun⟩
  · have hne : u ≠ t := by
      rintro rfl
      exact absurd ((Finmap.lookup_erase u s.calls).symm.trans hd) (Option.some_ne_none d).symm
    rw [Finmap.lookup_erase_ne hne] at hd
    obtain ⟨hid', hok'⟩ := h.calls u d hd
    refine ⟨List.not_mem_cons_of_ne_of_not_mem hne hid', hok'.of_ends
      (List.subset_cons_of_subset _ (List.Subset.refl _))
      ⟨hok'.together.commit_of_ne hne ?_ ?_, fun k => ?_⟩ fun k => ?_⟩
    · intro k r hr heq
      exact hid (heq ▸ h.writer_mem hr)
    · intro r hr heq
      exact hid (heq ▸ hok'.left_mem r hr)
    · exact LockedTable.inserted_release.trans (if_neg hne)
    · exact LockedTable.inserted_release.trans (if_neg hne)
  · obtain ⟨hlock, hne⟩ := LockedTable.locks_release.mp hk
    show (s.calls.erase t).lookup u ≠ none
    rw [Finmap.lookup_erase_ne hne]
    exact h.cacheLocks k u hlock
  · obtain ⟨hlock, hne⟩ := LockedTable.locks_release.mp hk
    show (s.calls.erase t).lookup u ≠ none
    rw [Finmap.lookup_erase_ne hne]
    exact h.versionLocks k u hlock
  · obtain rfl := Option.some.inj hcall
    obtain ⟨w, hw, hversion⟩ := hok.flipped_of_done htodo hb
    refine ⟨w, hw, ?_, fun hne => ?_⟩
    · have hlock : s.versions.locks.lookup board = some t := by
        by_contra hlock
        rw [LockedTable.inserted, if_neg hlock] at hversion
        cases hversion
      rw [LockedTable.inserted, if_pos hlock] at hversion
      show (s.versions.commit t).rows.lookup board = _
      rw [LockedTable.rows_commit, if_pos hlock, hversion]
      rfl
    · obtain ⟨o, ho, -⟩ := h.whole board w.1
      exact (h.holds_commit hc hleft board w.1 ho).1 w.2 hw hne

/-- **What holds of the cache holds after every step.** -/
theorem Ok.step {a : Action ε} (h : s.Ok) (hs : s.step a = some s') : s'.Ok := by
  cases a with
  | call t =>
    obtain ⟨⟨hnew, hid⟩, heq⟩ := Option.ite_none_right_eq_some.mp hs
    cases heq
    exact h.call hnew hid
  | move t move =>
    obtain ⟨c, hc, hs⟩ := Option.bind_eq_some_iff.mp hs
    obtain ⟨board, hhead, hs⟩ := Option.bind_eq_some_iff.mp hs
    obtain ⟨⟨cache', versions', c'⟩, hadvance, heq⟩ := Option.map_eq_some_iff.mp hs
    cases heq
    exact h.move hc hhead (Call.advances hadvance)
  | commit t =>
    obtain ⟨c, hc, hs⟩ := Option.bind_eq_some_iff.mp hs
    obtain ⟨htodo, heq⟩ := Option.ite_none_right_eq_some.mp hs
    cases heq
    exact h.commit hc htodo
  | abort t =>
    obtain ⟨c, hc, heq⟩ := Option.map_eq_some_iff.mp hs
    cases heq
    exact h.abort

theorem Ok.follow {as : List (Action ε)} (h : s.Ok)
    (hs : Run.follow LeaderboardCache.step s as = some s') :
    s'.Ok :=
  Run.invariant_of_follow (fun _ _ _ hok hstep => Ok.step hok hstep) hs h

/-- **The view shows of each board what one call has computed of it**: the call that was
committed last, if that has found any rows, and else one that was committed before, or none.
However calls overlap, no rows of two of them are ever mixed, and no board is shown in
part. -/
theorem leaderboardCurrent_follow {as : List (Action ε)} (h : Run.follow step {} as = some s)
    (hb : board ∈ boards) :
    ∃ entries, (∀ rank, s.leaderboardCurrent board rank = numbered entries rank)
      ∧ (entries = [] ∨ ∃ call ∈ s.history, entries = result call board)
      ∧ ∀ call ∈ s.history.head?, result call board ≠ [] → entries = result call board := by
  have hok := ok_new.follow h
  cases hhistory : s.history with
  | nil =>
    refine ⟨[], fun rank => ?_, .inl rfl, nofun⟩
    unfold leaderboardCurrent
    rw [hok.fresh hhistory board, numbered_nil]
    rfl
  | cons call earlier =>
    obtain ⟨w, hw, hversion, hlast⟩ := hok.last call (by rw [hhistory]; rfl) board hb
    have hresult : result call board = w.2 := by
      unfold result
      rw [hw]
      rfl
    have hshows : ∀ {o : Option (ℕ × List ε)}, Holds s.cache board w.1 o → ∀ rank,
        s.leaderboardCurrent board rank = numbered ((o.map Prod.snd).getD []) rank := by
      intro o ho rank
      unfold leaderboardCurrent
      rw [hversion]
      show (s.cache.rows.lookup (.of board w.1 rank)).map Prod.snd = _
      rw [ho rank]
      cases o with
      | none => exact (numbered_nil rank).symm
      | some v =>
        show ((numbered v.2 rank).map _).map Prod.snd = numbered v.2 rank
        cases numbered v.2 rank <;> rfl
    by_cases hne : w.2 = []
    · obtain ⟨o, ho, hres⟩ := hok.whole board w.1
      refine ⟨_, hshows ho, ?_, fun call' hcall' hne' => ?_⟩
      · cases o with
        | none => exact .inl rfl
        | some v =>
          obtain ⟨call', hcall', -, heq⟩ := hres v rfl
          exact .inr ⟨call', hhistory ▸ hcall', heq.symm⟩
      · obtain rfl := Option.some.inj hcall'
        exact absurd (hresult.trans hne) hne'
    · refine ⟨w.2, hshows (hlast hne), .inr ⟨call, List.mem_cons_self, hresult.symm⟩,
        fun call' hcall' _ => ?_⟩
      obtain rfl := Option.some.inj hcall'
      exact hresult.symm

section Overlapping

/-- What a call does with a board, if there is nothing to delete. -/
def boardMoves (entries : List String) : List (Move String) :=
  [.select, .delete, .compute entries] ++ entries.map (fun _ => .insertRow)
    ++ [.flip, .delete, .next]

/-- What a call does with all boards but some. -/
def refreshFrom (n t : ℕ) (entries : List String) : List (Action String) :=
  (boards.drop n).flatMap fun _ => (boardMoves entries).map (.move t)

/-- Two calls read the pointer of the first board; the one that is done first is overtaken by
the other, which finds its row and deletes it. -/
def overlapping : List (Action String) :=
  [.call 0, .call 1, .move 0 .select, .move 1 .select]
    ++ ((boardMoves ["a"]).tail.map (.move 0) ++ refreshFrom 1 0 ["a"] ++ [.commit 0])
    ++ [.move 1 .delete, .move 1 (.deleteRow (.of ("24h", "total_pnl") 1 1, 0)),
      .move 1 (.compute ["b"]), .move 1 .insertRow, .move 1 .flip, .move 1 .delete, .move 1 .next]
    ++ (boards.drop 1).flatMap (fun board =>
      [.move 1 .select, .move 1 .delete, .move 1 (.compute []), .move 1 .flip, .move 1 .delete,
        .move 1 (.deleteRow (.of board 1 1, 0)), .move 1 .next])
    ++ [.commit 1]

theorem leaderboardCurrent_follow_overlapping :
    ∃ s, Run.follow step ({} : LeaderboardCache String) overlapping = some s
      ∧ ∀ rank, s.leaderboardCurrent ("24h", "total_pnl") rank = numbered ["b"] rank := by
  have hlast : (Run.follow step ({} : LeaderboardCache String) overlapping).map
      (fun s => s.history.head?.map fun call => result call ("24h", "total_pnl"))
        = some (some ["b"]) := by decide +kernel
  obtain ⟨s, hs, hhead⟩ := Option.map_eq_some_iff.mp hlast
  obtain ⟨call, hcall, hresult⟩ := Option.map_eq_some_iff.mp hhead
  have hb : (("24h", "total_pnl") : Board) ∈ boards := by decide
  obtain ⟨entries, hshows, -, hentries⟩ := leaderboardCurrent_follow hs hb
  refine ⟨s, hs, fun rank => ?_⟩
  rw [hshows, hentries call hcall (by rw [hresult]; exact List.cons_ne_nil _ _), hresult]

end Overlapping

end LeaderboardCache
