import IntuitionCore.Leaderboard.Repo
import IntuitionCore.Library.Owed
import IntuitionCore.Library.Run
import IntuitionCore.Projections.Worker

/-!
# What becomes of a mark

A refresh cycle is a transaction that drains the dirty sets, followed by one
transaction for each chunk of the accounts that were found. Each of them may
fail, and so may the process between any two statements; the transaction that is
open is then rolled back, and the worker begins another cycle later.

A rolled back drain leaves the dirty sets as they were. A drain that was
committed does not: the accounts that are left when the cycle fails are known to
nobody. So marks are kept exactly if no cycle fails while it has an account left
that is still to be computed for a mark, unless the account was marked again or
another cycle has it too.

Here the statements of a drain are separate steps. A row that an open drain has
deleted is locked: another drain does not get it, and a transaction that would
mark it waits. A `DELETE` may miss rows that were committed after it began, so
it deletes some of the rows there are. The tables that accounts are computed from
are those of other workers, and stay as they are.
-/

open LeaderboardMarkerProjection LeaderboardRepo LeaderboardRefreshProjection

/-- Where a cycle is. -/
inductive RefreshCycle where
  | begun
  /-- The drain is open, and has deleted these vaults. -/
  | drainedVaults (vaults : Finset VaultKey)
  /-- The drain is open, and has deleted these vaults and accounts. -/
  | drainedAccounts (vaults : Finset VaultKey) (accounts : Finset String)
  /-- The drain is committed; these accounts are left to compute. The vaults are
  those it was for, and nothing reads them. -/
  | recomputing (vaults : Finset VaultKey) (remaining : List String)

namespace RefreshCycle

/-- The vaults an open drain has deleted. -/
def deletedVaults : RefreshCycle → Finset VaultKey
  | drainedVaults vaults => vaults
  | drainedAccounts vaults _ => vaults
  | _ => ∅

/-- The accounts an open drain has deleted. -/
def deletedAccounts : RefreshCycle → Finset String
  | drainedAccounts _ accounts => accounts
  | _ => ∅

/-- A cycle with these accounts left; it is over if there are none. -/
def next (vaults : Finset VaultKey) (remaining : List String) : Option RefreshCycle :=
  if remaining.isEmpty then none else some (recomputing vaults remaining)

end RefreshCycle

/-- A transaction that was committed: events were marked, or accounts computed. -/
inductive LeaderboardCommit where
  | marked (events : List ParsedEvent)
  | recomputed (accounts : List String)
  deriving DecidableEq, Repr

/-- The leaderboard, the cycles that are running, and what was committed. -/
structure LeaderboardCycles where
  board : LeaderboardDb := {}
  cycles : Table ℕ RefreshCycle := ∅
  /-- The transactions of markers and of chunks, the last one first. Nothing
  reads them. -/
  commits : List LeaderboardCommit := []

namespace LeaderboardCycles

/-- A transaction, a statement of one, or a failure. -/
inductive Action where
  /-- A batch is marked. -/
  | mark (events : List ParsedEvent)
  | begin (i : ℕ)
  | drainVaults (i : ℕ) (seen : Finset VaultKey)
  | drainAccounts (i : ℕ) (seen : Finset String)
  /-- The drain is committed; the accounts it found come in some order. -/
  | commitDrain (i : ℕ) (order : List String)
  /-- The next chunk is computed and committed. -/
  | commitChunk (i : ℕ) (now : String → ℤ)
  /-- A statement of the cycle fails, or its process does. -/
  | fail (i : ℕ)

variable (ext : Externals) (db : Db)

/-- The vaults that open drains have deleted. -/
def lockedVaults (s : LeaderboardCycles) : Finset VaultKey :=
  s.cycles.keys.biUnion fun i => ((s.cycles.lookup i).map RefreshCycle.deletedVaults).getD ∅

/-- The accounts that open drains have deleted. -/
def lockedAccounts (s : LeaderboardCycles) : Finset String :=
  s.cycles.keys.biUnion fun i => ((s.cycles.lookup i).map RefreshCycle.deletedAccounts).getD ∅

/-- A cycle comes to be somewhere, or is over. -/
def setCycle (s : LeaderboardCycles) (i : ℕ) (c : Option RefreshCycle) : LeaderboardCycles :=
  { s with cycles := s.cycles.alter i fun _ => c }

/-- What an action does, where it is possible. -/
def step (s : LeaderboardCycles) : Action → Option LeaderboardCycles
  | .mark events =>
    if ∀ e ∈ events, Disjoint (markedAccounts e) s.lockedAccounts
        ∧ ∀ k ∈ markedVault ext e, k ∉ s.lockedVaults then
      some { s with
        board := LeaderboardMarkerProjection.processParsedBatch ext s.board events
        commits := .marked events :: s.commits }
    else none
  | .begin i =>
    match s.cycles.lookup i with
    | none => some (s.setCycle i (some .begun))
    | some _ => none
  | .drainVaults i seen =>
    match s.cycles.lookup i with
    | some .begun =>
      if seen ⊆ s.board.dirtyVault.keys ∧ Disjoint seen s.lockedVaults then
        some (s.setCycle i (some (.drainedVaults seen)))
      else none
    | _ => none
  | .drainAccounts i seen =>
    match s.cycles.lookup i with
    | some (.drainedVaults vaults) =>
      if seen ⊆ s.board.dirtyAccount.keys ∧ Disjoint seen s.lockedAccounts then
        some (s.setCycle i (some (.drainedAccounts vaults seen)))
      else none
    | _ => none
  | .commitDrain i order =>
    match s.cycles.lookup i with
    | some (.drainedAccounts vaults accounts) =>
      if order.Nodup ∧ order.toFinset = accountSet db vaults accounts then
        some { s.setCycle i (RefreshCycle.next vaults order) with
          board := deleteDirtyAccounts (deleteDirtyVaults s.board vaults) accounts }
      else none
    | _ => none
  | .commitChunk i now =>
    match s.cycles.lookup i with
    | some (.recomputing vaults remaining) =>
      some { s.setCycle i (RefreshCycle.next vaults (remaining.drop pnlBatchSize)) with
        board := refreshChunk db now s.board (remaining.take pnlBatchSize)
        commits := .recomputed (remaining.take pnlBatchSize) :: s.commits }
    | _ => none
  | .fail i =>
    match s.cycles.lookup i with
    | some _ => some (s.setCycle i none)
    | none => none

/-! ## Marks -/

/-- What is to be done for a mark: an account that was marked is to be computed,
and so is each account that is active in a vault that was. -/
inductive Mark where
  | account (accountId : String)
  | holder (k : VaultKey) (accountId : String)

namespace Mark

/-- The account to compute. -/
def accountId : Mark → String
  | account a => a
  | holder _ a => a

/-- The mark is in its dirty set. -/
def IsDirty (board : LeaderboardDb) : Mark → Prop
  | account a => a ∈ board.dirtyAccount
  | holder k _ => k ∈ board.dirtyVault

/-- A cycle has the account left, of those it drained the mark for. -/
def IsLeftTo : Mark → RefreshCycle → Prop
  | account a, .recomputing _ remaining => a ∈ remaining
  | holder k a, .recomputing vaults remaining => k ∈ vaults ∧ a ∈ remaining
  | _, _ => False

/-- A commit made the mark. -/
def IsMadeBy : Mark → LeaderboardCommit → Prop
  | account a, .marked events => ∃ e ∈ events, a ∈ markedAccounts e
  | holder k a, .marked events =>
    (∃ e ∈ events, markedVault ext e = some k) ∧ a ∈ expandVaultToAccounts db k
  | _, .recomputed _ => False

/-- A commit computed the account of the mark. -/
def IsSettledBy (m : Mark) : LeaderboardCommit → Prop
  | .marked _ => False
  | .recomputed accounts => m.accountId ∈ accounts

end Mark

/-- The marks whose account has not been computed since. -/
def owed (s : LeaderboardCycles) : Set Mark :=
  Owed (fun c => {m | m.IsMadeBy ext db c}) (fun c => {m | m.IsSettledBy c}) s.commits

/-- A running cycle has the account of a mark left. -/
def LeftTo (s : LeaderboardCycles) (i : ℕ) (m : Mark) : Prop :=
  ∃ c, s.cycles.lookup i = some c ∧ m.IsLeftTo c

/-- **No mark is lost**: each whose account has not been computed since is still
in its dirty set, or belongs to a cycle that is running. -/
def MarksKept (s : LeaderboardCycles) : Prop :=
  ∀ m ∈ s.owed ext db, m.IsDirty s.board ∨ ∃ i, s.LeftTo i m

/-- A cycle that fails leaves nothing to compute: each account it has left was
computed since its mark, or was marked again, or is left to another cycle. -/
def MayFail (s : LeaderboardCycles) : Action → Prop
  | .fail i => ∀ m ∈ s.owed ext db, s.LeftTo i m → m.IsDirty s.board ∨ ∃ j ≠ i, s.LeftTo j m
  | _ => True

/-! ## What a step does to the marks -/

variable {ext db} {s s' : LeaderboardCycles} {i j : ℕ} {m : Mark}

/-- A vault is marked for the accounts that are active in it. -/
theorem mem_expand_of_owed {k : VaultKey} {a : String} (h : .holder k a ∈ s.owed ext db) :
    a ∈ expandVaultToAccounts db k := by
  obtain ⟨c, -, hmade⟩ := Owed.exists_mark h
  cases c with
  | marked events => exact hmade.2
  | recomputed accounts => exact hmade.elim

/-- What a cycle has left after it came to be somewhere, and what the others
have. -/
theorem leftTo_setCycle {c : Option RefreshCycle} :
    (s.setCycle i c).LeftTo j m ↔ if j = i then ∃ d ∈ c, m.IsLeftTo d else s.LeftTo j m := by
  unfold LeftTo setCycle
  simp only [Table.lookup_alter]
  by_cases h : j = i
  · simp [h]
  · simp [h]

/-- The others have what they had. -/
theorem leftTo_setCycle_of_ne {c : Option RefreshCycle} (hj : j ≠ i) :
    (s.setCycle i c).LeftTo j m ↔ s.LeftTo j m :=
  leftTo_setCycle.trans (iff_of_eq (if_neg hj))

/-- A cycle has all it is to compute left before it begins. -/
theorem exists_isLeftTo_next {vaults : Finset VaultKey} {remaining : List String}
    (ha : m.accountId ∈ remaining) (hvault : ∀ k a, m = .holder k a → k ∈ vaults) :
    ∃ d ∈ RefreshCycle.next vaults remaining, m.IsLeftTo d := by
  refine ⟨.recomputing vaults remaining, ?_, ?_⟩
  · unfold RefreshCycle.next
    rw [if_neg (by simpa using List.ne_nil_of_mem ha)]
    rfl
  · cases m with
    | account a => exact ha
    | holder k a => exact ⟨hvault k a rfl, ha⟩

/-- A step of a cycle keeps the marks if it keeps those that its dirty set or the
cycle had. -/
theorem MarksKept.of_setCycle {c : Option RefreshCycle} (h : s.MarksKept ext db)
    (hcycles : s'.cycles = (s.setCycle i c).cycles)
    (howed : ∀ m ∈ s'.owed ext db, m ∈ s.owed ext db)
    (hdirty : ∀ m ∈ s'.owed ext db, m.IsDirty s.board →
      m.IsDirty s'.board ∨ ∃ d ∈ c, m.IsLeftTo d)
    (hleft : ∀ m ∈ s'.owed ext db, s.LeftTo i m →
      m.IsDirty s'.board ∨ (∃ d ∈ c, m.IsLeftTo d) ∨ ∃ j ≠ i, s.LeftTo j m) :
    s'.MarksKept ext db := by
  have hkept : Owed.Kept (s.owed ext db) {m | m.IsDirty s.board} fun j => {m | s.LeftTo j m} := h
  have hsame : ∀ j m, s'.LeftTo j m ↔ (s.setCycle i c).LeftTo j m := fun j m => by
    unfold LeftTo
    rw [hcycles]
  have hthis : ∀ m, (∃ d ∈ c, m.IsLeftTo d) → s'.LeftTo i m := fun m hd =>
    (hsame i m).mpr (leftTo_setCycle.mpr (by rwa [if_pos rfl]))
  show Owed.Kept (s'.owed ext db) {m | m.IsDirty s'.board} fun j => {m | s'.LeftTo j m}
  refine hkept.of_worker (i := i) (fun j hj => Set.ext fun m => ?_) howed
    (fun m hm hd => (hdirty m hm hd).imp_right (hthis m))
    fun m hm hl => (hleft m hm hl).imp_right (Or.imp_left (hthis m))
  exact (hsame j m).trans (leftTo_setCycle_of_ne hj)

/-- Nothing is left to an open drain. -/
theorem not_leftTo {c : RefreshCycle} (hc : s.cycles.lookup i = some c)
    (hopen : ∀ vaults remaining, c ≠ .recomputing vaults remaining) : ¬ s.LeftTo i m := by
  rintro ⟨d, hd, hleft⟩
  obtain rfl := Option.some.inj (hc.symm.trans hd)
  cases c with
  | recomputing vaults remaining => exact hopen vaults remaining rfl
  | _ => cases m <;> exact hleft

/-- A cycle that only opens or continues a drain keeps the marks. -/
theorem MarksKept.of_drain {c : Option RefreshCycle} (h : s.MarksKept ext db)
    (hfree : ∀ m, ¬ s.LeftTo i m) : (s.setCycle i c).MarksKept ext db :=
  h.of_setCycle rfl (fun _ hm => hm) (fun _ _ hd => .inl hd)
    fun m _ hleft => absurd hleft (hfree m)

/-- **What was marked is in its dirty set**, and nothing leaves it. -/
theorem MarksKept.of_mark {events : List ParsedEvent} (h : s.MarksKept ext db) :
    MarksKept ext db
      { s with
        board := LeaderboardMarkerProjection.processParsedBatch ext s.board events
        commits := .marked events :: s.commits } := by
  intro m hm
  obtain hmade | ⟨hm', -⟩ := Owed.mem_cons.mp hm
  · refine .inl ?_
    cases m with
    | account a => exact mem_dirtyAccount_processParsedBatch.mpr (.inl hmade)
    | holder k a => exact mem_dirtyVault_processParsedBatch.mpr (.inl hmade.1)
  · refine (h m hm').imp_left fun hd => ?_
    cases m with
    | account a => exact mem_dirtyAccount_processParsedBatch.mpr (.inr hd)
    | holder k a => exact mem_dirtyVault_processParsedBatch.mpr (.inr hd)

/-- **What a committed drain took from the dirty sets is left to its cycle.** -/
theorem MarksKept.of_commitDrain {vaults : Finset VaultKey} {accounts : Finset String}
    {order : List String} (h : s.MarksKept ext db)
    (hc : s.cycles.lookup i = some (.drainedAccounts vaults accounts))
    (horder : order.toFinset = accountSet db vaults accounts) :
    MarksKept ext db
      { s.setCycle i (RefreshCycle.next vaults order) with
        board := deleteDirtyAccounts (deleteDirtyVaults s.board vaults) accounts } := by
  have hmem : ∀ a, a ∈ order ↔ a ∈ accountSet db vaults accounts := fun a => by
    rw [← horder, List.mem_toFinset]
  refine h.of_setCycle rfl (fun _ hm => hm) (fun m hm hd => ?_)
    fun m _ hleft => absurd hleft (not_leftTo hc nofun)
  cases m with
  | account a =>
    by_cases ha : a ∈ accounts
    · exact .inr (exists_isLeftTo_next ((hmem a).mpr (mem_accountSet.mpr (.inl ha))) nofun)
    · exact .inl (Table.mem_deleteRows_keys.mpr ⟨hd, ha⟩)
  | holder k a =>
    by_cases hk : k ∈ vaults
    · -- the drain found every account that is active in the vault
      have ha : a ∈ accountSet db vaults accounts :=
        mem_accountSet.mpr (.inr ⟨k, hk, mem_expand_of_owed hm⟩)
      refine .inr (exists_isLeftTo_next ((hmem a).mpr ha) fun k' a' heq => ?_)
      cases heq
      exact hk
    · exact .inl (Table.mem_deleteRows_keys.mpr ⟨hd, hk⟩)

/-- **A committed chunk settles the marks it takes from its cycle.** -/
theorem MarksKept.of_commitChunk {vaults : Finset VaultKey} {remaining : List String}
    {now : String → ℤ} {n : ℕ} (h : s.MarksKept ext db)
    (hc : s.cycles.lookup i = some (.recomputing vaults remaining)) :
    MarksKept ext db
      { s.setCycle i (RefreshCycle.next vaults (remaining.drop n)) with
        board := refreshChunk db now s.board (remaining.take n)
        commits := .recomputed (remaining.take n) :: s.commits } := by
  -- what is still owed is of accounts outside the chunk
  have howed : ∀ m ∈ Owed (fun c => {m | Mark.IsMadeBy ext db m c})
      (fun c => {m | m.IsSettledBy c}) (.recomputed (remaining.take n) :: s.commits),
      m ∈ s.owed ext db ∧ m.accountId ∉ remaining.take n := by
    intro m hm
    obtain hmade | hm' := Owed.mem_cons.mp hm
    · cases m <;> exact hmade.elim
    · exact hm'
  refine h.of_setCycle rfl (fun m hm => (howed m hm).1) (fun m _ hd => .inl ?_)
    fun m hm hleft => .inr (.inl ?_)
  · obtain ⟨haccount, hvault⟩ := refreshChunk_marks db now s.board (remaining.take n)
    cases m with
    | account a =>
      show a ∈ (refreshChunk db now s.board (remaining.take n)).dirtyAccount
      rwa [haccount]
    | holder k a =>
      show k ∈ (refreshChunk db now s.board (remaining.take n)).dirtyVault
      rwa [hvault]
  · obtain ⟨d, hd, hleft⟩ := hleft
    obtain rfl := Option.some.inj (hc.symm.trans hd)
    have hrest : m.accountId ∈ remaining → m.accountId ∈ remaining.drop n := fun ha => by
      rw [← List.take_append_drop n remaining, List.mem_append] at ha
      exact ha.resolve_left (howed m hm).2
    cases m with
    | account a => exact exists_isLeftTo_next (hrest hleft) nofun
    | holder k a =>
      refine exists_isLeftTo_next (hrest hleft.2) fun k' a' heq => ?_
      cases heq
      exact hleft.1

/-- A cycle that fails keeps the marks exactly if it leaves nothing to
compute. -/
theorem marksKept_fail_iff (h : s.MarksKept ext db) :
    (s.setCycle i none).MarksKept ext db ↔ s.MayFail ext db (.fail i) := by
  have hkept : Owed.Kept (s.owed ext db) {m | m.IsDirty s.board} fun j => {m | s.LeftTo j m} := h
  refine hkept.drop_iff (i := i) (fun j hj => Set.ext fun m => ?_)
    (Set.eq_empty_of_forall_notMem fun m hleft => ?_)
  · exact leftTo_setCycle_of_ne hj
  · simpa using leftTo_setCycle.mp hleft

/-- **Only a failure can lose a mark**, and what it must be for that. -/
theorem marksKept_step_iff {a : Action} (h : s.MarksKept ext db)
    (hstep : s.step ext db a = some s') : s'.MarksKept ext db ↔ s.MayFail ext db a := by
  -- only a drain, a chunk and a failure take marks away
  cases a with
  | mark events =>
    obtain ⟨-, ⟨⟩⟩ := Option.ite_none_right_eq_some.mp hstep
    exact iff_of_true h.of_mark trivial
  | begin i =>
    simp only [step] at hstep
    split at hstep
    case h_1 hc =>
      cases hstep
      exact iff_of_true (h.of_drain fun m ⟨d, hd, _⟩ => by simp [hc] at hd) trivial
    case h_2 => cases hstep
  | drainVaults i seen =>
    simp only [step] at hstep
    split at hstep
    case h_1 hc =>
      obtain ⟨-, ⟨⟩⟩ := Option.ite_none_right_eq_some.mp hstep
      exact iff_of_true (h.of_drain fun m => not_leftTo hc nofun) trivial
    case h_2 => cases hstep
  | drainAccounts i seen =>
    simp only [step] at hstep
    split at hstep
    case h_1 hc =>
      obtain ⟨-, ⟨⟩⟩ := Option.ite_none_right_eq_some.mp hstep
      exact iff_of_true (h.of_drain fun m => not_leftTo hc nofun) trivial
    case h_2 => cases hstep
  | commitDrain i order =>
    simp only [step] at hstep
    split at hstep
    case h_1 hc =>
      obtain ⟨⟨-, horder⟩, ⟨⟩⟩ := Option.ite_none_right_eq_some.mp hstep
      exact iff_of_true (h.of_commitDrain hc horder) trivial
    case h_2 => cases hstep
  | commitChunk i now =>
    simp only [step] at hstep
    split at hstep
    case h_1 hc =>
      cases hstep
      exact iff_of_true (h.of_commitChunk hc) trivial
    case h_2 => cases hstep
  | fail i =>
    simp only [step] at hstep
    split at hstep
    case h_1 hc =>
      cases hstep
      exact marksKept_fail_iff h
    case h_2 => cases hstep

/-- Before anything is committed, there is no mark to keep. -/
theorem marksKept_start (board : LeaderboardDb) :
    ({ board } : LeaderboardCycles).MarksKept ext db := by
  intro m hm
  rw [owed, Owed.nil] at hm
  exact hm.elim

end LeaderboardCycles

/-- **Marks are kept exactly if no cycle fails with an account left.** Whatever
markers and cycles do, and in whatever order, every mark whose account has not
been computed since is still in its dirty set or belongs to a running cycle, in
every state that is passed, if and only if each cycle that fails has no account
left that is still to be computed, has not been marked again, and is left to no
other cycle. -/
theorem leaderboard_marks_kept_iff (ext : Externals) (db : Db) (board : LeaderboardDb)
    (schedule : List LeaderboardCycles.Action) :
    Run.Always (LeaderboardCycles.step ext db) (LeaderboardCycles.MarksKept ext db) { board }
        schedule
      ↔ Run.EachStep (LeaderboardCycles.step ext db) (LeaderboardCycles.MayFail ext db) { board }
        schedule :=
  Run.always_iff_eachStep (I := fun _ => True) (fun _ _ _ _ _ => trivial)
    (fun _ _ _ _ hkept hstep => LeaderboardCycles.marksKept_step_iff hkept hstep)
    trivial (LeaderboardCycles.marksKept_start board) schedule

/-- A deposit marks an account; the cycle that drains the mark fails before it
has computed the account. -/
def failsAfterDrain : List LeaderboardCycles.Action :=
  [.mark [ParsedEvent.parseOrUnknown firstDeposit], .begin 0, .drainVaults 0 ∅,
    .drainAccounts 0 {"0xa"}, .commitDrain 0 ["0xa"], .fail 0]

/-- **A mark can be lost**: nothing is left of it after the failure. -/
theorem failsAfterDrain_loses_mark :
    ¬ ∀ (ext : Externals) (db : Db) (board : LeaderboardDb)
      (schedule : List LeaderboardCycles.Action) (s : LeaderboardCycles),
      Run.follow (LeaderboardCycles.step ext db) { board } schedule = some s →
        s.MarksKept ext db := by
  intro h
  have hrun : (Run.follow (LeaderboardCycles.step .exact {}) {} failsAfterDrain).map
      (fun s => (s.board.dirtyAccount.keys, s.cycles.keys, s.commits))
      = some (∅, ∅, [.marked [ParsedEvent.parseOrUnknown firstDeposit]]) := by
    decide +kernel
  obtain ⟨s, hs, heq⟩ := Option.map_eq_some_iff.mp hrun
  simp only [Prod.mk.injEq] at heq
  obtain ⟨hdirty, hcycles, hcommits⟩ := heq
  have howed : .account "0xa" ∈ s.owed .exact {} := by
    rw [LeaderboardCycles.owed, hcommits]
    exact Owed.mem_cons.mpr (.inl ⟨_, List.mem_singleton_self _, by decide +kernel⟩)
  obtain hd | ⟨i, c, hc, -⟩ := h .exact {} {} failsAfterDrain s hs _ howed
  · exact Finset.notMem_empty _ (hdirty ▸ Finmap.mem_keys.mpr hd)
  · exact Finset.notMem_empty i (hcycles ▸ Finmap.mem_keys.mpr (Finmap.mem_iff.mpr ⟨c, hc⟩))
