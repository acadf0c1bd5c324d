import IntuitionCore.Library.RowLocks
import IntuitionCore.Library.Run

/-!
# The leaderboard cache

The leaderboards of four periods, each sorted in six ways, are kept in a cache with version
numbers. A pointer to the active version stands beside each board, and a view shows the rows
of that version. A call of the refresh goes through the boards: it reads the pointer, clears
the rows of the next version, computes the board and inserts its rows under the next version,
flips the pointer, and deletes the rows of the version that was active. All of it is one
transaction.

Calls may overlap: the job runs every few minutes, and anyone can call the function. Each
statement sees what is committed when it begins, waits for the locks of others, and fails
where a row that it inserts is there already. What is computed of a board is left open: some
rows, which are numbered from 1.

So a pointer can go back. But as a version is cleared as a whole and its first row is always
number 1, no call can add rows to those of another: what the view shows of a board is what
one call computed of it.
-/

/-- A period and a way to sort. -/
abbrev Board := String × String

/-- The primary key of the cache. -/
structure CacheKey where
  cacheVersion : ℕ
  period : String
  sortKey : String
  rank : ℕ
  deriving DecidableEq, Repr

namespace CacheKey

/-- The key of a row of a version of a board. -/
def of (board : Board) (version rank : ℕ) : CacheKey := ⟨version, board.1, board.2, rank⟩

def board (k : CacheKey) : Board := (k.period, k.sortKey)

/-- The version of a board that a key is in. -/
def slot (k : CacheKey) : Board × ℕ := (k.board, k.cacheVersion)

theorem eq_of_iff {k : CacheKey} {board : Board} {version rank : ℕ} :
    k = of board version rank ↔ k.board = board ∧ k.cacheVersion = version ∧ k.rank = rank := by
  constructor
  · rintro rfl
    exact ⟨rfl, rfl, rfl⟩
  · rintro ⟨rfl, rfl, rfl⟩
    rfl

@[simp] theorem slot_of (board : Board) (version rank : ℕ) :
    (of board version rank).slot = (board, version) := rfl

end CacheKey

namespace LeaderboardCache

def periods : List String := ["24h", "7d", "30d", "all_time"]

def sortKeys : List String :=
  ["total_pnl", "pnl_pct", "realized_pnl", "unrealized_pnl", "win_rate", "total_volume"]

/-- The boards, in the order of the loops. -/
def boards : List Board := periods.flatMap fun period => sortKeys.map fun key => (period, key)

theorem nodup_boards : boards.Nodup := by decide

/-- How far a call is with a board. -/
inductive Phase (ε : Type) where
  /-- The active version is to be read. -/
  | selecting
  /-- The next version is to be cleared. -/
  | selected
  /-- Some rows of the next version are still to be deleted. -/
  | clearing (rows : Finset (CacheKey × ℕ))
  /-- Some rows are still to be inserted. -/
  | inserting (entries : List ε)
  /-- The pointer has been flipped, and the version that was active is to be deleted. -/
  | flipped
  /-- Some rows of the version that was active are still to be deleted. -/
  | cleaning (rows : Finset (CacheKey × ℕ))

/-- A call of the refresh. -/
structure Call (ε : Type) where
  /-- The boards that are left, the current one first. -/
  todo : List Board := boards
  phase : Phase ε := .selecting
  active : ℕ := 0
  /-- The versions it has inserted, with their rows. -/
  written : Table Board (ℕ × List ε) := ∅

/-- What a call does next. -/
inductive Move (ε : Type) where
  | select
  | delete
  | deleteRow (row : CacheKey × ℕ)
  | compute (entries : List ε)
  | insertRow
  | flip
  | next

variable {ε : Type}

/-- What a call does to the two tables, and how far it is then. -/
def Call.advance (cache : LockedTable CacheKey ε) (versions : LockedTable Board ℕ) (t : ℕ)
    (c : Call ε) (board : Board) :
    Move ε → Option (LockedTable CacheKey ε × LockedTable Board ℕ × Call ε) := fun move =>
  match c.phase, move with
  | .selecting, .select =>
    some (cache, versions,
      { c with phase := .selected, active := (versions.visible t board).getD 0 })
  | .selected, .delete =>
    some (cache, versions,
      { c with phase := .clearing (cache.rowsWhere t fun k => k.slot = (board, c.active + 1)) })
  | .clearing rows, .deleteRow row =>
    if row ∈ rows then
      (cache.deleteRow t row).map fun cache =>
        (cache, versions, { c with phase := .clearing (rows.erase row) })
    else none
  | .clearing rows, .compute entries =>
    if rows = ∅ ∧ entries.length ≤ 100 then
      some (cache, versions,
        { c with
          phase := .inserting entries
          written := c.written.insert board (c.active + 1, []) })
    else none
  | .inserting (entry :: entries), .insertRow =>
    (c.written.lookup board).bind fun w =>
      (cache.insertRow t (.of board (c.active + 1) (w.2.length + 1)) entry).map fun cache =>
        (cache, versions,
          { c with
            phase := .inserting entries
            written := c.written.insert board (w.1, w.2 ++ [entry]) })
  | .inserting [], .flip =>
    (versions.upsertRow t board (c.active + 1)).map fun versions =>
      (cache, versions, { c with phase := .flipped })
  | .flipped, .delete =>
    some (cache, versions,
      { c with phase := .cleaning (cache.rowsWhere t fun k => k.slot = (board, c.active)) })
  | .cleaning rows, .deleteRow row =>
    if row ∈ rows then
      (cache.deleteRow t row).map fun cache =>
        (cache, versions, { c with phase := .cleaning (rows.erase row) })
    else none
  | .cleaning rows, .next =>
    if rows = ∅ then some (cache, versions, { c with todo := c.todo.tail, phase := .selecting })
    else none
  | _, _ => none

end LeaderboardCache

/-- The cache, the pointers, the calls that are open, and those that were committed, the
latest first. -/
structure LeaderboardCache (ε : Type) where
  cache : LockedTable CacheKey ε := {}
  versions : LockedTable Board ℕ := {}
  calls : Table ℕ (LeaderboardCache.Call ε) := ∅
  history : List (ℕ × Table Board (ℕ × List ε)) := []

namespace LeaderboardCache

variable {ε : Type}

inductive Action (ε : Type) where
  /-- The function is called, in a new transaction. -/
  | call (t : ℕ)
  | move (t : ℕ) (move : Move ε)
  | commit (t : ℕ)
  /-- A call fails or is cancelled. -/
  | abort (t : ℕ)

/-- The transactions that were committed. -/
def committed (s : LeaderboardCache ε) : List ℕ := s.history.map Prod.fst

def step (s : LeaderboardCache ε) : Action ε → Option (LeaderboardCache ε)
  | .call t =>
    if s.calls.lookup t = none ∧ t ∉ s.committed then
      some { s with calls := s.calls.insert t {} }
    else none
  | .move t move =>
    (s.calls.lookup t).bind fun c => c.todo.head?.bind fun board =>
      (c.advance s.cache s.versions t board move).map fun r =>
        { s with cache := r.1, versions := r.2.1, calls := s.calls.insert t r.2.2 }
  | .commit t =>
    (s.calls.lookup t).bind fun c =>
      if c.todo = [] then
        some
          { cache := s.cache.commit t
            versions := s.versions.commit t
            calls := s.calls.erase t
            history := (t, c.written) :: s.history }
      else none
  | .abort t =>
    (s.calls.lookup t).map fun _ =>
      { s with
        cache := s.cache.abort t
        versions := s.versions.abort t
        calls := s.calls.erase t }

/-- The row of a board with a rank, in the view. -/
def leaderboardCurrent (s : LeaderboardCache ε) (board : Board) (rank : ℕ) : Option ε :=
  (s.versions.rows.lookup board).bind fun version =>
    (s.cache.rows.lookup (.of board version.2 rank)).map Prod.snd

/-- What a call that was committed has computed of a board. -/
def result (call : ℕ × Table Board (ℕ × List ε)) (board : Board) : List ε :=
  ((call.2.lookup board).map Prod.snd).getD []

/-! ## What holds of a call -/

/-- A row of some rows that are numbered from 1. -/
def numbered (entries : List ε) (rank : ℕ) : Option ε :=
  if 0 < rank then entries[rank - 1]? else none

theorem numbered_nil (rank : ℕ) : numbered ([] : List ε) rank = none := by
  unfold numbered
  split <;> rfl

theorem numbered_concat (entries : List ε) (entry : ε) (rank : ℕ) :
    numbered (entries ++ [entry]) rank
      = if rank = entries.length + 1 then some entry else numbered entries rank := by
  unfold numbered
  rcases Nat.eq_zero_or_pos rank with rfl | hpos
  · rfl
  · rw [if_pos hpos, if_pos hpos]
    by_cases heq : rank = entries.length + 1
    · rw [if_pos heq, heq]
      exact List.getElem?_concat_length
    · rw [if_neg heq, List.getElem?_append]
      by_cases hlt : rank - 1 < entries.length
      · rw [if_pos hlt]
      · rw [if_neg hlt, List.getElem?_eq_none (not_lt.mp hlt)]
        exact List.getElem?_eq_none (by simp; omega)

/-- There is a row if and only if there is a first one. -/
theorem numbered_one {entries : List ε} (hne : entries ≠ []) : numbered entries 1 ≠ none := by
  obtain ⟨entry, rest, rfl⟩ := List.exists_cons_of_ne_nil hne
  exact Option.some_ne_none entry

namespace Phase

/-- The rows that are still to be deleted. -/
def left : Phase ε → Finset (CacheKey × ℕ)
  | .clearing rows | .cleaning rows => rows
  | _ => ∅

/-- Whether the board has been computed. -/
def writes : Phase ε → Bool
  | .inserting _ | .flipped | .cleaning _ => true
  | _ => false

/-- Whether the pointer has been flipped. -/
def flips : Phase ε → Bool
  | .flipped | .cleaning _ => true
  | _ => false

end Phase

namespace Call

/-- The row that a call has put under a key. -/
def row (c : Call ε) (k : CacheKey) : Option ε :=
  (c.written.lookup k.board).bind fun w =>
    if k.cacheVersion = w.1 then numbered w.2 k.rank else none

/-- What holds of a call: it is about to delete whole versions, written by calls that were
committed; what it has inserted is what it has computed so far; and the pointers of the boards
it is done with are flipped to the versions it has inserted. -/
structure Ok (cache : LockedTable CacheKey ε) (versions : LockedTable Board ℕ) (ids : List ℕ)
    (t : ℕ) (c : Call ε) : Prop where
  together : cache.Together CacheKey.slot t c.phase.left
  left_mem : ∀ r ∈ c.phase.left, r.2 ∈ ids
  left_slot : ∀ board, c.todo.head? = some board → ∀ r ∈ c.phase.left,
    r.1.slot = (board, if c.phase.flips = true then c.active else c.active + 1)
  inserted : ∀ k, cache.inserted t k = c.row k
  todo : c.todo <:+ boards
  left_done : c.todo = [] → c.phase.left = ∅
  unwritten : ∀ board ∈ c.todo, (c.todo.head? = some board → c.phase.writes = false) →
    c.written.lookup board = none
  current : ∀ board, c.todo.head? = some board → c.phase.writes = true →
    ∃ es, c.written.lookup board = some (c.active + 1, es)
  flipped : ∀ board ∈ boards,
    board ∉ c.todo ∨ c.todo.head? = some board ∧ c.phase.flips = true →
    ∃ w, c.written.lookup board = some w ∧ versions.inserted t board = some w.1

variable {cache cache' : LockedTable CacheKey ε} {versions versions' : LockedTable Board ℕ}
  {ids : List ℕ} {t u : ℕ} {c c' d : Call ε} {board : Board} {move : Move ε}

/-- A call that has just begun. -/
theorem ok_new (hcache : ∀ k, cache.locks.lookup k ≠ some t) :
    Ok cache versions ids t ({} : Call ε) where
  together := .of_no_locks hcache
  left_mem _ hr := absurd hr (Finset.notMem_empty _)
  left_slot _ _ _ hr := absurd hr (Finset.notMem_empty _)
  inserted k := if_neg (hcache k)
  todo := List.suffix_rfl
  left_done _ := rfl
  unwritten _ _ _ := rfl
  current _ _ h := absurd h Bool.false_ne_true
  flipped _ hb h := h.elim (fun hnot => absurd hb hnot) fun h => absurd h.2 Bool.false_ne_true

/-- A call goes on to another phase, neither to compute a board nor to flip its pointer. -/
theorem Ok.rephase (h : c.Ok cache versions ids t) (hhead : c.todo.head? = some board)
    {phase : Phase ε} (active : ℕ)
    (hwrites : phase.writes = c.phase.writes) (hflips : phase.flips = c.phase.flips)
    (hactive : c.phase.writes = true → active = c.active)
    (htogether : cache'.Together CacheKey.slot t phase.left)
    (hmem : ∀ r ∈ phase.left, r.2 ∈ ids)
    (hslot : ∀ board, c.todo.head? = some board → ∀ r ∈ phase.left,
      r.1.slot = (board, if phase.flips = true then active else active + 1))
    (hinserted : ∀ k, cache'.inserted t k = cache.inserted t k) :
    Ok cache' versions ids t { c with phase, active } where
  together := htogether
  left_mem := hmem
  left_slot := hslot
  inserted k := (hinserted k).trans (h.inserted k)
  todo := h.todo
  left_done hnil := absurd hhead (by rw [hnil]; exact (Option.some_ne_none board).symm)
  unwritten board hb hhead := h.unwritten board hb fun heq => hwrites ▸ hhead heq
  current board hhead hw := by
    have hw' : c.phase.writes = true := hwrites ▸ hw
    rw [hactive hw']
    exact h.current board hhead hw'
  flipped board hb hdone := h.flipped board hb (hdone.imp_right fun hd => ⟨hd.1, hflips ▸ hd.2⟩)

/-- A call goes on to delete rows of a version. -/
theorem Ok.delete (h : c.Ok cache versions ids t)
    (hwriters : ∀ k r, cache.rows.lookup k = some r → r.1 ∈ ids)
    (hhead : c.todo.head? = some board) {phase : Phase ε} (hleft : c.phase.left = ∅)
    (hwrites : phase.writes = c.phase.writes) (hflips : phase.flips = c.phase.flips)
    (hphase : phase.left = cache.rowsWhere t fun k => k.slot
      = (board, if phase.flips = true then c.active else c.active + 1)) :
    Ok cache versions ids t { c with phase } := by
  have htogether := h.together
  rw [hleft] at htogether
  refine h.rephase hhead c.active hwrites hflips (fun _ => rfl) ?_ ?_ ?_ fun _ => rfl
  · rw [hphase]
    exact htogether.rowsWhere _
  · rw [hphase]
    intro r hr
    obtain ⟨row, hrow, hr2⟩ := Option.map_eq_some_iff.mp (LockedTable.mem_rowsWhere.mp hr).2.2
    exact hr2 ▸ hwriters _ _ hrow
  · rw [hphase]
    intro board' hhead' r hr
    obtain rfl := Option.some.inj (hhead.symm.trans hhead')
    exact (LockedTable.mem_rowsWhere.mp hr).1

/-- A row of a version that is to be deleted is none that the call has inserted. -/
theorem Ok.row_eq_none (h : c.Ok cache versions ids t) (hhead : c.todo.head? = some board)
    {r : CacheKey × ℕ} (hr : r ∈ c.phase.left) : c.row r.1 = none := by
  have hslot := h.left_slot board hhead r hr
  have hboard : r.1.board = board := congrArg Prod.fst hslot
  have hversion : r.1.cacheVersion = _ := congrArg Prod.snd hslot
  unfold row
  rw [hboard]
  cases hw : c.phase.writes with
  | false =>
    rw [h.unwritten board (List.mem_of_mem_head? hhead) fun _ => hw]
    rfl
  | true =>
    obtain ⟨es, hes⟩ := h.current board hhead hw
    have hflips : c.phase.flips = true := by
      cases hphase : c.phase with
      | inserting entries =>
        rw [hphase] at hr
        exact absurd hr (Finset.notMem_empty _)
      | _ => simp_all [Phase.writes, Phase.flips]
    rw [if_pos hflips] at hversion
    rw [hes]
    exact if_neg (by rw [hversion]; exact (Nat.lt_succ_self _).ne)

/-- A call deletes a row. -/
theorem Ok.deleteRow (h : c.Ok cache versions ids t) (hhead : c.todo.head? = some board)
    {r : CacheKey × ℕ} (hr : r ∈ c.phase.left) (hs : cache.deleteRow t r = some cache')
    {phase : Phase ε} (hwrites : phase.writes = c.phase.writes)
    (hflips : phase.flips = c.phase.flips) (hphase : phase.left = c.phase.left.erase r) :
    Ok cache' versions ids t { c with phase } := by
  refine h.rephase hhead c.active hwrites hflips (fun _ => rfl) ?_ ?_ ?_ ?_
  · rw [hphase]
    exact h.together.deleteRow hr hs
  · rw [hphase]
    exact fun r' hr' => h.left_mem r' (Finset.mem_of_mem_erase hr')
  · rw [hphase, hflips]
    exact fun board' hhead' r' hr' => h.left_slot board' hhead' r' (Finset.mem_of_mem_erase hr')
  · intro k
    obtain ⟨-, rfl⟩ | ⟨-, -, rfl⟩ := LockedTable.deleteRow_eq_some hs
    · rfl
    · rw [LockedTable.inserted_write]
      by_cases hk : k = r.1
      · rw [if_pos hk, h.inserted, hk, h.row_eq_none hhead hr]
      · rw [if_neg hk]

/-- A call has computed a board, and has inserted none of its rows. -/
theorem Ok.compute (h : c.Ok cache versions ids t) (hhead : c.todo.head? = some board)
    {rows : Finset (CacheKey × ℕ)} (hphase : c.phase = .clearing rows) (hrows : rows = ∅)
    (entries : List ε) :
    Ok cache versions ids t
      { c with
        phase := .inserting entries
        written := c.written.insert board (c.active + 1, []) } := by
  have htogether := h.together
  rw [hphase, show (Phase.clearing rows : Phase ε).left = rows from rfl, hrows] at htogether
  have hnone : c.written.lookup board = none :=
    h.unwritten board (List.mem_of_mem_head? hhead) fun _ => by rw [hphase]; rfl
  have hne : ∀ {board'}, c.written.lookup board' ≠ none → board' ≠ board := by
    rintro board' hsome rfl
    exact hsome hnone
  refine ⟨htogether, nofun, nofun, fun k => ?_, h.todo, fun _ => rfl, fun board' hb hhead' => ?_,
    fun board' hhead' _ => ?_, fun board' hb hdone => ?_⟩
  · rw [h.inserted]
    unfold row
    by_cases hk : k.board = board
    · rw [hk, hnone, Finmap.lookup_insert]
      show none = if _ then numbered [] k.rank else none
      rw [numbered_nil, ite_self]
    · rw [Finmap.lookup_insert_of_ne _ hk]
  · have hb' : board' ≠ board := by
      rintro rfl
      exact Bool.false_ne_true (hhead' hhead).symm
    rw [Finmap.lookup_insert_of_ne _ hb']
    refine h.unwritten board' hb fun heq => absurd (Option.some.inj (heq.symm.trans hhead)) hb'
  · obtain rfl := Option.some.inj (hhead.symm.trans hhead')
    exact ⟨[], Finmap.lookup_insert _⟩
  · obtain ⟨w, hw, hver⟩ := h.flipped board' hb
      (hdone.imp_right fun hd => absurd hd.2 Bool.false_ne_true)
    refine ⟨w, ?_, hver⟩
    rw [Finmap.lookup_insert_of_ne _ (hne (hw ▸ Option.some_ne_none w))]
    exact hw

/-- A call inserts a row. -/
theorem Ok.insertRow (h : c.Ok cache versions ids t) (hhead : c.todo.head? = some board)
    {entry : ε} {entries : List ε} (hphase : c.phase = .inserting (entry :: entries))
    {w : ℕ × List ε} (hw : c.written.lookup board = some w)
    (hs : cache.insertRow t (.of board (c.active + 1) (w.2.length + 1)) entry = some cache') :
    Ok cache' versions ids t
      { c with
        phase := .inserting entries
        written := c.written.insert board (w.1, w.2 ++ [entry]) } := by
  obtain ⟨es, hes⟩ := h.current board hhead (by rw [hphase]; rfl)
  obtain rfl := Option.some.inj (hw.symm.trans hes)
  have htogether := h.together
  rw [hphase] at htogether
  have hlookup : ∀ board', board' ≠ board →
      (c.written.insert board (c.active + 1, es ++ [entry])).lookup board'
        = c.written.lookup board' := fun board' hne => Finmap.lookup_insert_of_ne _ hne
  refine ⟨htogether.insertRow hs, nofun, nofun, fun k => ?_, h.todo, fun _ => rfl,
    fun board' hb hhead' => ?_, fun board' hhead' _ => ?_, fun board' hb hdone => ?_⟩
  · obtain ⟨-, -, rfl⟩ := LockedTable.insertRow_eq_some hs
    rw [LockedTable.inserted_write, h.inserted]
    unfold row
    by_cases hk : k.board = board
    · rw [hk, hw, Finmap.lookup_insert]
      show (if _ then _ else if k.cacheVersion = c.active + 1 then numbered es k.rank else none)
        = if k.cacheVersion = c.active + 1 then numbered (es ++ [entry]) k.rank else none
      rw [numbered_concat]
      by_cases hv : k.cacheVersion = c.active + 1
      · rw [if_pos hv, if_pos hv]
        refine if_congr (CacheKey.eq_of_iff.trans ?_) rfl rfl
        exact ⟨fun hkey => hkey.2.2, fun hr => ⟨hk, hv, hr⟩⟩
      · rw [if_neg hv, if_neg hv, if_neg fun heq => hv (CacheKey.eq_of_iff.mp heq).2.1]
    · rw [hlookup _ hk, if_neg]
      rintro rfl
      exact hk rfl
  · have hb' : board' ≠ board := by
      rintro rfl
      exact Bool.false_ne_true (hhead' hhead).symm
    rw [hlookup _ hb']
    refine h.unwritten board' hb fun heq => absurd (Option.some.inj (heq.symm.trans hhead)) hb'
  · obtain rfl := Option.some.inj (hhead.symm.trans hhead')
    exact ⟨es ++ [entry], Finmap.lookup_insert _⟩
  · have hdone' : board' ∉ c.todo := hdone.resolve_right fun hd => Bool.false_ne_true hd.2
    obtain ⟨w', hw', hver⟩ := h.flipped board' hb (.inl hdone')
    refine ⟨w', ?_, hver⟩
    have hne : board' ≠ board := by
      rintro rfl
      exact hdone' (List.mem_of_mem_head? hhead)
    rw [hlookup _ hne]
    exact hw'

/-- A call flips the pointer of a board. -/
theorem Ok.flip (h : c.Ok cache versions ids t) (hhead : c.todo.head? = some board)
    (hphase : c.phase = .inserting [])
    (hs : versions.upsertRow t board (c.active + 1) = some versions') :
    Ok cache versions' ids t { c with phase := .flipped } := by
  obtain ⟨es, hes⟩ := h.current board hhead (by rw [hphase]; rfl)
  obtain ⟨-, rfl⟩ := LockedTable.upsertRow_eq_some hs
  have htogether := h.together
  rw [hphase] at htogether
  refine ⟨htogether, nofun, nofun, h.inserted, h.todo, fun _ => rfl, fun board' hb hhead' => ?_,
    fun board' hhead' _ => h.current board' hhead' (by rw [hphase]; rfl), fun board' hb hdone => ?_⟩
  · exact h.unwritten board' hb fun heq => absurd (hhead' heq).symm Bool.false_ne_true
  · rw [LockedTable.inserted_write]
    by_cases hboard : board' = board
    · rw [if_pos hboard, hboard]
      exact ⟨_, hes, rfl⟩
    · rw [if_neg hboard]
      refine h.flipped board' hb (.inl (hdone.resolve_right fun hd => hboard ?_))
      exact Option.some.inj (hd.1.symm.trans hhead)

/-- A call goes on to the next board. -/
theorem Ok.next (h : c.Ok cache versions ids t) (hhead : c.todo.head? = some board)
    {rows : Finset (CacheKey × ℕ)} (hphase : c.phase = .cleaning rows) (hrows : rows = ∅) :
    Ok cache versions ids t { c with todo := c.todo.tail, phase := .selecting } := by
  have htogether := h.together
  rw [hphase, show (Phase.cleaning rows : Phase ε).left = rows from rfl, hrows] at htogether
  have htodo : c.todo = board :: c.todo.tail := (List.cons_head?_tail hhead).symm
  have hnodup : (board :: c.todo.tail).Nodup :=
    htodo ▸ nodup_boards.sublist h.todo.sublist
  refine ⟨htogether, nofun, nofun, h.inserted, (List.tail_suffix _).trans h.todo,
    fun _ => rfl, fun board' hb _ => ?_, nofun, fun board' hb hdone => ?_⟩
  · have hb' : board' ≠ board := fun heq => (List.nodup_cons.mp hnodup).1 (heq ▸ hb)
    refine h.unwritten board' (List.mem_of_mem_tail hb) fun heq => ?_
    exact absurd (Option.some.inj (heq.symm.trans hhead)) hb'
  · have hdone' : board' ∉ c.todo.tail := hdone.resolve_right fun hd => Bool.false_ne_true hd.2
    refine h.flipped board' hb ?_
    by_cases hboard : board' = board
    · exact .inr ⟨hboard ▸ hhead, by rw [hphase]; rfl⟩
    · refine .inl fun hmem => ?_
      rw [htodo] at hmem
      exact (List.mem_cons.mp hmem).elim hboard hdone'

/-- What a call can do next. -/
inductive Advances (cache : LockedTable CacheKey ε) (versions : LockedTable Board ℕ) (t : ℕ)
    (c : Call ε) (board : Board) : LockedTable CacheKey ε → LockedTable Board ℕ → Call ε → Prop
  | select (hphase : c.phase = .selecting) : Advances cache versions t c board cache versions
      { c with phase := .selected, active := (versions.visible t board).getD 0 }
  | delete {phase : Phase ε} (hleft : c.phase.left = ∅) (hwrites : phase.writes = c.phase.writes)
      (hflips : phase.flips = c.phase.flips)
      (hphase : phase.left = cache.rowsWhere t fun k => k.slot
        = (board, if phase.flips = true then c.active else c.active + 1)) :
      Advances cache versions t c board cache versions { c with phase }
  | deleteRow {cache' : LockedTable CacheKey ε} {row : CacheKey × ℕ} {phase : Phase ε}
      (hrow : row ∈ c.phase.left) (hdelete : cache.deleteRow t row = some cache')
      (hwrites : phase.writes = c.phase.writes) (hflips : phase.flips = c.phase.flips)
      (hphase : phase.left = c.phase.left.erase row) :
      Advances cache versions t c board cache' versions { c with phase }
  | compute {rows : Finset (CacheKey × ℕ)} (hphase : c.phase = .clearing rows) (hrows : rows = ∅)
      (entries : List ε) : Advances cache versions t c board cache versions
        { c with
          phase := .inserting entries
          written := c.written.insert board (c.active + 1, []) }
  | insertRow {cache' : LockedTable CacheKey ε} {entry : ε} {entries : List ε} {w : ℕ × List ε}
      (hphase : c.phase = .inserting (entry :: entries)) (hw : c.written.lookup board = some w)
      (hinsert : cache.insertRow t (.of board (c.active + 1) (w.2.length + 1)) entry
        = some cache') : Advances cache versions t c board cache' versions
        { c with
          phase := .inserting entries
          written := c.written.insert board (w.1, w.2 ++ [entry]) }
  | flip {versions' : LockedTable Board ℕ} (hphase : c.phase = .inserting [])
      (hupsert : versions.upsertRow t board (c.active + 1) = some versions') :
      Advances cache versions t c board cache versions' { c with phase := .flipped }
  | next {rows : Finset (CacheKey × ℕ)} (hphase : c.phase = .cleaning rows) (hrows : rows = ∅) :
      Advances cache versions t c board cache versions
        { c with todo := c.todo.tail, phase := .selecting }

/-- **Whatever a call does next is one of these.** -/
theorem advances (hs : c.advance cache versions t board move = some (cache', versions', c')) :
    c.Advances cache versions t board cache' versions' c' := by
  unfold Call.advance at hs
  split at hs
  next hphase =>
    cases hs
    exact .select hphase
  next hphase =>
    cases hs
    exact .delete (by rw [hphase]; rfl) (by rw [hphase]; rfl) (by rw [hphase]; rfl) rfl
  next rows row hphase =>
    obtain ⟨hrow, hs⟩ := Option.ite_none_right_eq_some.mp hs
    obtain ⟨cache₁, hdelete, heq⟩ := Option.map_eq_some_iff.mp hs
    cases heq
    exact .deleteRow (by rw [hphase]; exact hrow) hdelete (by rw [hphase]; rfl)
      (by rw [hphase]; rfl) (by rw [hphase]; rfl)
  next rows entries hphase =>
    obtain ⟨hrows, hs⟩ := Option.ite_none_right_eq_some.mp hs
    cases hs
    exact .compute hphase hrows.1 entries
  next entry entries hphase =>
    obtain ⟨w, hw, hs⟩ := Option.bind_eq_some_iff.mp hs
    obtain ⟨cache₁, hinsert, heq⟩ := Option.map_eq_some_iff.mp hs
    cases heq
    exact .insertRow hphase hw hinsert
  next hphase =>
    obtain ⟨versions₁, hupsert, heq⟩ := Option.map_eq_some_iff.mp hs
    cases heq
    exact .flip hphase hupsert
  next hphase =>
    cases hs
    exact .delete (by rw [hphase]; rfl) (by rw [hphase]; rfl) (by rw [hphase]; rfl) rfl
  next rows row hphase =>
    obtain ⟨hrow, hs⟩ := Option.ite_none_right_eq_some.mp hs
    obtain ⟨cache₁, hdelete, heq⟩ := Option.map_eq_some_iff.mp hs
    cases heq
    exact .deleteRow (by rw [hphase]; exact hrow) hdelete (by rw [hphase]; rfl)
      (by rw [hphase]; rfl) (by rw [hphase]; rfl)
  next rows hphase =>
    obtain ⟨hrows, hs⟩ := Option.ite_none_right_eq_some.mp hs
    cases hs
    exact .next hphase hrows
  next => cases hs

/-- **What holds of a call holds whatever it does next.** -/
theorem Ok.advances (h : c.Ok cache versions ids t)
    (hwriters : ∀ k r, cache.rows.lookup k = some r → r.1 ∈ ids)
    (hhead : c.todo.head? = some board)
    (hs : c.Advances cache versions t board cache' versions' c') :
    c'.Ok cache' versions' ids t := by
  cases hs with
  | select hphase =>
    have htogether := h.together
    rw [hphase] at htogether
    have hwrites : c.phase.writes = false := by
      rw [hphase]
      rfl
    exact h.rephase hhead _ hwrites.symm (by rw [hphase]; rfl)
      (fun hw => absurd (hwrites.symm.trans hw) Bool.false_ne_true) htogether nofun nofun
      fun _ => rfl
  | delete hleft hwrites hflips hphase =>
    exact h.delete hwriters hhead hleft hwrites hflips hphase
  | deleteRow hrow hdelete hwrites hflips hphase =>
    exact h.deleteRow hhead hrow hdelete hwrites hflips hphase
  | compute hphase hrows entries => exact h.compute hhead hphase hrows entries
  | insertRow hphase hw hinsert => exact h.insertRow hhead hphase hw hinsert
  | flip hphase hupsert => exact h.flip hhead hphase hupsert
  | next hphase hrows => exact h.next hhead hphase hrows

/-- **A call changes no row that is committed**, and takes no lock from another. -/
theorem Advances.writes (hs : c.Advances cache versions t board cache' versions' c') :
    (cache' = cache ∨ ∃ k row, cache.Free t k ∧ cache' = cache.write t k row)
      ∧ (versions' = versions
        ∨ ∃ k row, versions.Free t k ∧ versions' = versions.write t k row) := by
  cases hs with
  | deleteRow hrow hdelete hwrites hflips hphase =>
    refine ⟨?_, .inl rfl⟩
    obtain ⟨-, rfl⟩ | ⟨-, hfree, rfl⟩ := LockedTable.deleteRow_eq_some hdelete
    · exact .inl rfl
    · exact .inr ⟨_, _, hfree, rfl⟩
  | insertRow hphase hw hinsert =>
    obtain ⟨hfree, -, rfl⟩ := LockedTable.insertRow_eq_some hinsert
    exact ⟨.inr ⟨_, _, hfree, rfl⟩, .inl rfl⟩
  | flip hphase hupsert =>
    obtain ⟨hfree, rfl⟩ := LockedTable.upsertRow_eq_some hupsert
    exact ⟨.inl rfl, .inr ⟨_, _, hfree, rfl⟩⟩
  | _ => exact ⟨.inl rfl, .inl rfl⟩

/-- What another call does does not matter. -/
theorem Ok.of_advances (h : d.Ok cache versions ids u)
    (hs : c.Advances cache versions t board cache' versions' c') (hu : u ≠ t) :
    d.Ok cache' versions' ids u := by
  obtain ⟨hcache, hversions⟩ := hs.writes
  have htogether : cache'.Together CacheKey.slot u d.phase.left := by
    obtain rfl | ⟨k, row, hfree, rfl⟩ := hcache
    · exact h.together
    · exact h.together.write_of_ne hfree hu
  have hinserted : ∀ k, cache'.inserted u k = cache.inserted u k := by
    obtain rfl | ⟨k, row, hfree, rfl⟩ := hcache
    · exact fun _ => rfl
    · exact fun _ => LockedTable.inserted_write_of_ne hfree hu
  have hflipped : ∀ board, versions'.inserted u board = versions.inserted u board := by
    obtain rfl | ⟨k, row, hfree, rfl⟩ := hversions
    · exact fun _ => rfl
    · exact fun _ => LockedTable.inserted_write_of_ne hfree hu
  refine { h with together := htogether, inserted := fun k => (hinserted k).trans (h.inserted k),
                  flipped := fun board' hb hdone => ?_ }
  obtain ⟨w, hw, hver⟩ := h.flipped board' hb hdone
  exact ⟨w, hw, (hflipped board').trans hver⟩

/-- Nor does it matter that another call ends. -/
theorem Ok.of_ends (h : d.Ok cache versions ids u) {ids' : List ℕ}
    (hids : ids ⊆ ids')
    (hcache : cache'.Together CacheKey.slot u d.phase.left
      ∧ ∀ k, cache'.inserted u k = cache.inserted u k)
    (hversions : ∀ k, versions'.inserted u k = versions.inserted u k) :
    d.Ok cache' versions' ids' u := by
  refine { h with together := hcache.1, left_mem := fun r hr => hids (h.left_mem r hr),
                  inserted := fun k => (hcache.2 k).trans (h.inserted k),
                  flipped := fun board' hb hdone => ?_ }
  obtain ⟨w, hw, hver⟩ := h.flipped board' hb hdone
  exact ⟨w, hw, (hversions board').trans hver⟩

end Call

end LeaderboardCache
