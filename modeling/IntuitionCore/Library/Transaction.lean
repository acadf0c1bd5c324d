import Mathlib.Data.Nat.Find
import Mathlib.Data.List.Infix
import Mathlib.Data.Set.Basic

/-!
# Transactions that a failed statement aborts

The statements of a transaction are sent one after the other. A statement that
fails aborts the transaction: every later one fails as well, and the commit
rolls everything back. The client learns of each statement that failed, but of
the commit it only learns that it went through.

A client that has several tasks for one transaction may skip a task when one of
its statements fails, and go on with the next. As soon as a statement has failed,
what it commits is nothing, although the tasks before that statement have
succeeded. So the tasks that succeeded have been carried out if no statement
failed, and otherwise only as far as there was nothing left to do for them.
-/

variable {σ τ μ : Type}

/-- How the database answers a client. -/
structure Connection where
  /-- Whether a transaction can be begun. -/
  begins : Bool
  /-- Whether the statement that is sent after some others fails by itself. -/
  fails : ℕ → Bool
  /-- Whether the answer to a commit arrives. -/
  commits : Bool

/-- An open transaction. -/
structure Transaction (σ : Type) where
  /-- The database as the transaction sees it. -/
  working : σ
  /-- How many statements were sent. -/
  sent : ℕ := 0
  /-- Whether a statement has failed. -/
  aborted : Bool := false

namespace Transaction

variable (conn : Connection)

/-- Send a statement; the answer is whether it succeeded. -/
def execute (tx : Transaction σ) (statement : σ → σ) : Bool × Transaction σ :=
  if tx.aborted || conn.fails tx.sent then
    (false, { tx with sent := tx.sent + 1, aborted := true })
  else (true, { tx with working := statement tx.working, sent := tx.sent + 1 })

/-- Send the statements of a task, up to the first one that fails. -/
def executeTask (tx : Transaction σ) : List (σ → σ) → Bool × Transaction σ
  | [] => (true, tx)
  | statement :: statements =>
    match tx.execute conn statement with
    | (true, tx) => tx.executeTask statements
    | (false, tx) => (false, tx)

/-- Send the statements of some tasks; a task that fails is skipped. The answer
are the tasks that succeeded. -/
def executeTasks (statements : τ → List (σ → σ)) (tx : Transaction σ) :
    List τ → List τ × Transaction σ
  | [] => ([], tx)
  | task :: tasks =>
    let (succeeded, tx) := tx.executeTask conn (statements task)
    let (rest, tx) := tx.executeTasks statements tasks
    (if succeeded then task :: rest else rest, tx)

/-- The database after a commit, if its answer arrives. -/
def commit (db : σ) (tx : Transaction σ) : Option σ :=
  if conn.commits then some (if tx.aborted then db else tx.working) else none

/-- Carry out tasks in one transaction. Nothing is returned if it cannot be
begun, or if there is no answer to its commit; else the tasks that succeeded,
and the database. -/
def run (statements : τ → List (σ → σ)) (db : σ) (tasks : List τ) : Option (List τ × σ) :=
  if conn.begins then
    let (succeeded, tx) := executeTasks conn statements { working := db } tasks
    (tx.commit conn db).map fun db => (succeeded, db)
  else none

/-- What statements do to a database, one after the other. -/
def applyAll (statements : List (σ → σ)) (db : σ) : σ :=
  statements.foldl (fun db statement => statement db) db

/-! ## Which tasks succeed -/

variable {statements : τ → List (σ → σ)} {tasks : List τ}

/-- In an aborted transaction every statement fails. -/
theorem executeTask_of_aborted {tx : Transaction σ} (h : tx.aborted = true)
    (stmts : List (σ → σ)) :
    (tx.executeTask conn stmts).2.aborted = true
      ∧ ((tx.executeTask conn stmts).1 = true → stmts = []) := by
  cases stmts with
  | nil => exact ⟨h, fun _ => rfl⟩
  | cons statement stmts =>
    have hexec : tx.execute conn statement
        = (false, { tx with sent := tx.sent + 1, aborted := true }) := by
      unfold execute
      rw [h]
      rfl
    simp [executeTask, hexec]

/-- A task none of whose statements fails succeeds. -/
theorem executeTask_of_not_fails {tx : Transaction σ} (h : tx.aborted = false)
    (stmts : List (σ → σ)) (hfails : ∀ i < stmts.length, conn.fails (tx.sent + i) = false) :
    tx.executeTask conn stmts
      = (true, ⟨applyAll stmts tx.working, tx.sent + stmts.length, false⟩) := by
  induction stmts generalizing tx with
  | nil =>
    rw [← h]
    rfl
  | cons statement stmts ih =>
    have hexec : tx.execute conn statement
        = (true, ⟨statement tx.working, tx.sent + 1, false⟩) := by
      unfold execute
      rw [h, show conn.fails tx.sent = false from hfails 0 (Nat.zero_lt_succ _)]
      rfl
    simp only [executeTask, hexec]
    rw [ih rfl fun i hi => ?_]
    · simp [applyAll, Nat.add_assoc, Nat.add_comm]
    · show conn.fails (tx.sent + 1 + i) = false
      rw [Nat.add_assoc, Nat.add_comm 1 i]
      exact hfails (i + 1) (by simpa using hi)

/-- A task one of whose statements fails is skipped, and the transaction is
aborted. -/
theorem executeTask_of_fails {tx : Transaction σ} (stmts : List (σ → σ))
    (hfails : ∃ i < stmts.length, conn.fails (tx.sent + i) = true) :
    (tx.executeTask conn stmts).1 = false ∧ (tx.executeTask conn stmts).2.aborted = true := by
  induction stmts generalizing tx with
  | nil => simp at hfails
  | cons statement stmts ih =>
    unfold executeTask execute
    by_cases hnow : (tx.aborted || conn.fails tx.sent) = true
    · -- the first statement fails, or the transaction is aborted already
      simp [hnow]
    · simp only [if_neg hnow]
      refine ih ?_
      obtain ⟨i, hi, hfail⟩ := hfails
      cases i with
      | zero => simp [show conn.fails tx.sent = true from hfail] at hnow
      | succ i =>
        refine ⟨i, by simpa using hi, ?_⟩
        show conn.fails (tx.sent + 1 + i) = true
        rwa [Nat.add_assoc, Nat.add_comm 1 i]

/-- In an aborted transaction only tasks without statements succeed. -/
theorem executeTasks_of_aborted {tx : Transaction σ} (h : tx.aborted = true)
    (statements : τ → List (σ → σ)) (tasks : List τ) :
    (tx.executeTasks conn statements tasks).2.aborted = true
      ∧ ∀ task ∈ (tx.executeTasks conn statements tasks).1, statements task = [] := by
  induction tasks generalizing tx with
  | nil => exact ⟨h, nofun⟩
  | cons task tasks ih =>
    obtain ⟨haborted, hempty⟩ := executeTask_of_aborted conn h (statements task)
    obtain ⟨hend, hrest⟩ := ih haborted
    refine ⟨hend, ?_⟩
    simp only [executeTasks]
    split
    next hok => exact List.forall_mem_cons.mpr ⟨hempty hok, hrest⟩
    next => exact hrest

/-- **If no statement fails, every task succeeds.** -/
theorem executeTasks_of_not_fails {tx : Transaction σ} (h : tx.aborted = false)
    (hfails : ∀ i < (tasks.flatMap statements).length, conn.fails (tx.sent + i) = false) :
    tx.executeTasks conn statements tasks
      = (tasks, ⟨applyAll (tasks.flatMap statements) tx.working,
          tx.sent + (tasks.flatMap statements).length, false⟩) := by
  induction tasks generalizing tx with
  | nil =>
    rw [← h]
    rfl
  | cons task tasks ih =>
    rw [List.flatMap_cons, List.length_append] at hfails
    have htask := executeTask_of_not_fails conn h (statements task)
      fun i hi => hfails i (Nat.lt_add_right _ hi)
    simp only [executeTasks, htask]
    rw [ih rfl fun i hi => ?_]
    · simp [applyAll, Nat.add_assoc]
    · show conn.fails (tx.sent + (statements task).length + i) = false
      rw [Nat.add_assoc]
      exact hfails _ (Nat.add_lt_add_left hi _)

/-- All statements of a task, at some place among the tasks, come before the one
of a position. -/
def Precedes (statements : τ → List (σ → σ)) (tasks : List τ) (n : ℕ) (task : τ) : Prop :=
  ∃ before after, tasks = before ++ task :: after
    ∧ ((before ++ [task]).flatMap statements).length ≤ n

theorem precedes_cons {first : τ} {n : ℕ} :
    Precedes statements (first :: tasks) n task
      ↔ (statements first).length ≤ n
        ∧ (task = first ∨ Precedes statements tasks (n - (statements first).length) task) := by
  constructor
  · rintro ⟨before, after, heq, hle⟩
    -- the task is the first one, or it comes later
    cases before with
    | nil =>
      obtain ⟨rfl, -⟩ := List.cons.inj heq
      exact ⟨by simpa using hle, .inl rfl⟩
    | cons e before =>
      obtain ⟨rfl, rfl⟩ := List.cons.inj heq
      rw [List.cons_append, List.flatMap_cons, List.length_append] at hle
      exact ⟨le_trans (Nat.le_add_right _ _) hle,
        .inr ⟨before, after, rfl, Nat.le_sub_of_add_le' hle⟩⟩
  · rintro ⟨hle, rfl | ⟨before, after, rfl, hle'⟩⟩
    · exact ⟨[], tasks, rfl, by simpa using hle⟩
    · refine ⟨first :: before, after, rfl, ?_⟩
      rw [List.cons_append, List.flatMap_cons, List.length_append]
      exact Nat.add_le_of_le_sub' hle hle'

/-- **If a statement fails, the transaction is aborted**, and the tasks that
succeeded are those whose statements all come before it. -/
theorem executeTasks_of_fails {tx : Transaction σ} (h : tx.aborted = false) {n : ℕ}
    (hn : n < (tasks.flatMap statements).length) (hfail : conn.fails (tx.sent + n) = true)
    (hfirst : ∀ m < n, conn.fails (tx.sent + m) = false) :
    (tx.executeTasks conn statements tasks).2.aborted = true
      ∧ ∀ task, statements task ≠ [] →
        (task ∈ (tx.executeTasks conn statements tasks).1 ↔ Precedes statements tasks n task) := by
  induction tasks generalizing tx n with
  | nil => exact absurd hn (Nat.not_lt_zero _)
  | cons first tasks ih =>
    by_cases hlt : n < (statements first).length
    · -- the first task fails, and every later one
      obtain ⟨hskip, haborted⟩ := executeTask_of_fails conn _ ⟨n, hlt, hfail⟩
      obtain ⟨hend, hempty⟩ := executeTasks_of_aborted conn haborted statements tasks
      simp only [executeTasks, hskip]
      refine ⟨hend, fun task htask => iff_of_false (fun hmem => htask (hempty task hmem)) ?_⟩
      rw [precedes_cons]
      exact fun hp => absurd hp.1 (Nat.not_le.mpr hlt)
    · have hle := Nat.not_lt.mp hlt
      have hok := executeTask_of_not_fails conn h (statements first)
        fun i hi => hfirst i (Nat.lt_of_lt_of_le hi hle)
      rw [List.flatMap_cons, List.length_append] at hn
      let rest : Transaction σ :=
        ⟨applyAll (statements first) tx.working, tx.sent + (statements first).length, false⟩
      have hfail' : conn.fails (rest.sent + (n - (statements first).length)) = true := by
        show conn.fails (tx.sent + (statements first).length + _) = true
        rwa [Nat.add_assoc, Nat.add_sub_cancel' hle]
      have hfirst' : ∀ m < n - (statements first).length, conn.fails (rest.sent + m) = false := by
        intro m hm
        show conn.fails (tx.sent + (statements first).length + m) = false
        rw [Nat.add_assoc]
        exact hfirst _ (by omega)
      obtain ⟨hend, hrest⟩ := ih rfl (by omega) hfail' hfirst'
      simp only [executeTasks, hok]
      refine ⟨hend, fun task htask => ?_⟩
      rw [if_pos trivial, List.mem_cons, hrest task htask, precedes_cons]
      exact (and_iff_right hle).symm

/-- **If no statement fails, the tasks are carried out.** -/
theorem run_of_not_fails (hbegins : conn.begins = true) (hcommits : conn.commits = true) (db : σ)
    (hfails : ∀ n < (tasks.flatMap statements).length, conn.fails n = false) :
    run conn statements db tasks = some (tasks, applyAll (tasks.flatMap statements) db) := by
  have htx : (⟨db, 0, false⟩ : Transaction σ).executeTasks conn statements tasks = _ :=
    executeTasks_of_not_fails conn rfl fun i hi => by
      rw [Nat.zero_add]
      exact hfails i hi
  unfold run commit
  rw [if_pos hbegins, htx]
  simp only [if_pos hcommits]
  rfl

/-- **If a statement fails, nothing is carried out**, though the commit is
answered. -/
theorem run_of_fails (hbegins : conn.begins = true) (hcommits : conn.commits = true) (db : σ)
    {n : ℕ} (hn : n < (tasks.flatMap statements).length) (hfail : conn.fails n = true)
    (hfirst : ∀ m < n, conn.fails m = false) :
    ∃ succeeded, run conn statements db tasks = some (succeeded, db)
      ∧ ∀ task, statements task ≠ [] →
        (task ∈ succeeded ↔ Precedes statements tasks n task) := by
  have hopen : (⟨db, 0, false⟩ : Transaction σ).aborted = false := rfl
  obtain ⟨haborted, hmem⟩ := executeTasks_of_fails conn hopen hn
    (by rwa [Nat.zero_add]) fun m hm => by
      rw [Nat.zero_add]
      exact hfirst m hm
  refine ⟨_, ?_, hmem⟩
  unfold run commit
  rw [if_pos hbegins]
  simp only [if_pos hcommits, haborted]
  rfl

variable {conn} in
/-- What returns began and was committed. -/
theorem of_run_eq_some {db : σ} {result : List τ × σ}
    (h : run conn statements db tasks = some result) :
    conn.begins = true ∧ conn.commits = true := by
  unfold run commit at h
  by_cases hbegins : conn.begins = true
  · refine ⟨hbegins, by_contra fun hcommits => ?_⟩
    rw [if_pos hbegins] at h
    simp only [if_neg hcommits] at h
    cases h
  · rw [if_neg hbegins] at h
    cases h

/-! ## What the tasks that succeeded have left -/

section Marks

variable {Has : σ → μ → Prop} {marks : τ → Set μ}

/-- Every mark of a task that succeeded is in the database that is committed. -/
def MarksKept (conn : Connection) (statements : τ → List (σ → σ)) (Has : σ → μ → Prop)
    (marks : τ → Set μ) (db : σ) (tasks : List τ) : Prop :=
  ∀ succeeded db', run conn statements db tasks = some (succeeded, db') →
    ∀ task ∈ succeeded, ∀ m ∈ marks task, Has db' m

/-- If the commit is answered and a statement fails, the marks of the tasks
before the first such statement are in the database already. -/
def Spared (conn : Connection) (statements : τ → List (σ → σ)) (Has : σ → μ → Prop)
    (marks : τ → Set μ) (db : σ) (tasks : List τ) : Prop :=
  conn.begins = true → conn.commits = true →
    ∀ n < (tasks.flatMap statements).length, conn.fails n = true →
      (∀ m < n, conn.fails m = false) →
        ∀ task, Precedes statements tasks n task → ∀ m ∈ marks task, Has db m

/-- Tasks that are carried out leave their marks. -/
theorem has_applyAll
    (hmarks : ∀ db task m, Has (applyAll (statements task) db) m ↔ m ∈ marks task ∨ Has db m)
    {db : σ} {m : μ} : Has (applyAll (tasks.flatMap statements) db) m
      ↔ (∃ task ∈ tasks, m ∈ marks task) ∨ Has db m := by
  induction tasks generalizing db with
  | nil => simp [applyAll]
  | cons task tasks ih =>
    have hcons : applyAll ((task :: tasks).flatMap statements) db
        = applyAll (tasks.flatMap statements) (applyAll (statements task) db) := by
      unfold applyAll
      rw [List.flatMap_cons, List.foldl_append]
    rw [hcons, ih, hmarks, List.exists_mem_cons_iff, ← or_assoc, or_comm (b := m ∈ marks task)]

/-- **The marks of the tasks that succeeded are kept exactly if no statement
fails, or they are spared.** -/
theorem marksKept_iff
    (hmarks : ∀ db task m, Has (applyAll (statements task) db) m ↔ m ∈ marks task ∨ Has db m)
    (db : σ) (tasks : List τ) :
    MarksKept conn statements Has marks db tasks ↔ Spared conn statements Has marks db tasks := by
  -- a task without statements leaves no marks of its own
  have hnone : ∀ task m, statements task = [] → m ∈ marks task → Has db m := by
    intro task m hnil hm
    have h := (hmarks db task m).mpr (.inl hm)
    rwa [hnil] at h
  constructor
  · intro hkept hbegins hcommits n hn hfail hfirst task hprec m hm
    obtain ⟨succeeded, hrun, hmem⟩ := run_of_fails conn hbegins hcommits db hn hfail hfirst
    by_cases hnil : statements task = []
    · exact hnone task m hnil hm
    · exact hkept _ _ hrun task ((hmem task hnil).mpr hprec) m hm
  · intro hspared succeeded db' hrun task htask m hm
    obtain ⟨hbegins, hcommits⟩ := of_run_eq_some hrun
    by_cases hfails : ∃ n, n < (tasks.flatMap statements).length ∧ conn.fails n = true
    · -- the transaction is rolled back, and the database is what it was
      obtain ⟨hn, hfail⟩ := Nat.find_spec hfails
      have hfirst : ∀ m < Nat.find hfails, conn.fails m = false := fun m hm =>
        Bool.eq_false_iff.mpr fun h => Nat.find_min hfails hm ⟨hm.trans hn, h⟩
      obtain ⟨succeeded', hrun', hmem⟩ := run_of_fails conn hbegins hcommits db hn hfail hfirst
      obtain ⟨rfl, rfl⟩ := Prod.ext_iff.mp (Option.some.inj (hrun'.symm.trans hrun))
      by_cases hnil : statements task = []
      · exact hnone task m hnil hm
      · exact hspared hbegins hcommits _ hn hfail hfirst task ((hmem task hnil).mp htask) m hm
    · -- everything is committed, and the tasks that succeeded are all
      have hall : ∀ n < (tasks.flatMap statements).length, conn.fails n = false := fun n hn =>
        Bool.eq_false_iff.mpr fun h => hfails ⟨n, hn, h⟩
      have hrun' := run_of_not_fails conn hbegins hcommits db hall
      obtain ⟨rfl, rfl⟩ := Prod.ext_iff.mp (Option.some.inj (hrun'.symm.trans hrun))
      exact (has_applyAll hmarks).mpr (.inl ⟨task, htask, hm⟩)

end Marks

end Transaction
