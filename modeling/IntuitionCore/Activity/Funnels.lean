import IntuitionCore.Library.Rank
import IntuitionCore.Library.Table
import Mathlib.Data.Prod.Lex
import Mathlib.Algebra.Order.Group.Int

/-!
# Funnels

A funnel is a sequence of steps that accounts go through. A cycle looks through the events of
all accounts and records who has completed which step, and when. The first step is an
account's first event of a kind. A later one is its first event, or its fifth, of a kind and
within a window that begins when the first step was completed.

A cycle finds that in the table it records in: it joins the events with the rows for the first
step. A row is inserted unless the table has one with the same account, funnel, step and time,
and no row is ever changed or deleted.

The funnels are named here where the code has the identifier of a row that it reads before
each cycle, and times are in microseconds.
-/

/-- A row of `atom_created_events`, as the funnels read it. -/
structure AtomCreatedRow where
  creator : String
  termId : ℕ
  blockTimestamp : ℤ
  sequenceNumber : Option ℤ
  deriving DecidableEq, Repr

/-- A row of `triple_created_events`. -/
structure TripleCreatedRow where
  creator : String
  blockTimestamp : ℤ
  sequenceNumber : Option ℤ
  deriving DecidableEq, Repr

/-- A row of `deposited_events`. -/
structure DepositedRow where
  sender : String
  termId : ℕ
  blockTimestamp : ℤ
  sequenceNumber : Option ℤ
  deriving DecidableEq, Repr

/-- The typed event tables. -/
structure FunnelEvents where
  atomCreated : List AtomCreatedRow := []
  tripleCreated : List TripleCreatedRow := []
  deposited : List DepositedRow := []

namespace FunnelEvents

/-- The rows of one are among those of another. -/
structure Within (E E' : FunnelEvents) : Prop where
  atomCreated : E.atomCreated.Sublist E'.atomCreated
  tripleCreated : E.tripleCreated.Sublist E'.tripleCreated
  deposited : E.deposited.Sublist E'.deposited

theorem Within.refl (E : FunnelEvents) : E.Within E :=
  ⟨List.Sublist.refl _, List.Sublist.refl _, List.Sublist.refl _⟩

theorem Within.trans {E E' E'' : FunnelEvents} (h : E.Within E') (h' : E'.Within E'') :
    E.Within E'' :=
  ⟨h.atomCreated.trans h'.atomCreated, h.tripleCreated.trans h'.tripleCreated,
    h.deposited.trans h'.deposited⟩

end FunnelEvents

/-- An event of an account. -/
structure AccountEvent where
  accountId : String
  blockTimestamp : ℤ
  sequenceNumber : Option ℤ
  deriving DecidableEq, Repr

/-- When an event happened: events are ordered by time, and then by number. -/
abbrev EventPlace : Type := ℤ ×ₗ ℤ

/-- The funnels. -/
inductive Funnel where
  | onboarding
  | activation
  | creator
  | crossFeature
  deriving DecidableEq, Repr

/-- The unique key of `funnel_event`. -/
structure FunnelEventKey where
  accountId : String
  funnel : Funnel
  stepIndex : ℕ
  completedAt : ℤ
  deriving DecidableEq, Repr

/-- The table `funnel_event`, with the number of the event. -/
abbrev FunnelEventTable : Type := Table FunnelEventKey ℤ

namespace FunnelRepo

/-- Where the numbered events of an account stand. -/
def places (rows : List AccountEvent) (accountId : String) : List EventPlace :=
  rows.filterMap fun r =>
    if r.accountId = accountId then r.sequenceNumber.map fun n => toLex (r.blockTimestamp, n)
    else none

/-- Insert a row for each account that has an event, unless there is one. -/
def insertSelected (funnel : Funnel) (stepIndex : ℕ) (selected : String → Option EventPlace)
    (accounts : List String) (t : FunnelEventTable) : FunnelEventTable :=
  accounts.foldl (fun t a =>
    match selected a with
    | some p => t.insertIfAbsent ⟨a, funnel, stepIndex, (ofLex p).1⟩ (ofLex p).2
    | none => t) t

/-- A step after the first one: a kind of event, from when on and for how long after the first
step, and which of them. -/
structure LaterStep where
  /-- The events, of which more are selected if there are more events. -/
  rows : FunnelEvents → List AccountEvent
  rows_mono : ∀ {E E'}, E.Within E' → (rows E).Sublist (rows E')
  /-- The event has to come after the first step, and not at the same time. -/
  strict : Bool
  window : ℤ
  /-- How many such events come before it. -/
  rank : ℕ

/-- The steps of a funnel. -/
structure FunnelSteps where
  funnel : Funnel
  /-- The events whose first one is the first step. -/
  first : FunnelEvents → List AccountEvent
  first_mono : ∀ {E E'}, E.Within E' → (first E).Sublist (first E')
  later : List LaterStep

namespace LaterStep

variable (q : LaterStep)

/-- Whether an event is in the window that begins with the first step. -/
def inWindow (completedAt : ℤ) (p : EventPlace) : Bool :=
  (if q.strict then completedAt < (ofLex p).1 else completedAt ≤ (ofLex p).1)
    && (ofLex p).1 ≤ completedAt + q.window

/-- The events of an account joined with its rows for the first step: an event is there once for
each row in whose window it is. -/
def joined (E : FunnelEvents) (completedAt : Finset ℤ) (accountId : String) : List EventPlace :=
  (places (q.rows E) accountId).flatMap fun p =>
    List.replicate (completedAt.filter fun c => q.inWindow c p).card p

end LaterStep

/-- When an account completed the first step, as the table has it. -/
def completedFirst (t : FunnelEventTable) (funnel : Funnel) (accountId : String) : Finset ℤ :=
  (t.keys.filter fun k => k.accountId = accountId ∧ k.funnel = funnel ∧ k.stepIndex = 0).image
    FunnelEventKey.completedAt

variable (E : FunnelEvents)

/-- The insert of the first step. -/
def insertFirst (steps : FunnelSteps) (t : FunnelEventTable) : FunnelEventTable :=
  insertSelected steps.funnel 0 (fun a => Rank.nth (places (steps.first E) a) 0)
    ((steps.first E).map AccountEvent.accountId) t

/-- The insert of a later step. -/
def insertLater (funnel : Funnel) (stepIndex : ℕ) (q : LaterStep) (t : FunnelEventTable) :
    FunnelEventTable :=
  insertSelected funnel stepIndex
    (fun a => Rank.nth (q.joined E (completedFirst t funnel a) a) q.rank)
    ((q.rows E).map AccountEvent.accountId) t

/-- The inserts of the later steps, one after the other. -/
def insertAllLater (funnel : Funnel) : ℕ → List LaterStep → FunnelEventTable → FunnelEventTable
  | _, [], t => t
  | stepIndex, q :: later, t =>
    insertAllLater funnel (stepIndex + 1) later (insertLater E funnel stepIndex q t)

/-- Compute a funnel. -/
def computeFunnel (steps : FunnelSteps) (t : FunnelEventTable) : FunnelEventTable :=
  insertAllLater E steps.funnel 1 steps.later (insertFirst E steps t)

/-! ## The four funnels -/

/-- A day in microseconds. -/
def intervalDay : ℤ := 86_400_000_000

def atomRows (E : FunnelEvents) : List AccountEvent :=
  E.atomCreated.map fun ace => ⟨ace.creator, ace.blockTimestamp, ace.sequenceNumber⟩

def tripleRows (E : FunnelEvents) : List AccountEvent :=
  E.tripleCreated.map fun tce => ⟨tce.creator, tce.blockTimestamp, tce.sequenceNumber⟩

def depositRow (de : DepositedRow) : AccountEvent :=
  ⟨de.sender, de.blockTimestamp, de.sequenceNumber⟩

def depositRows (E : FunnelEvents) : List AccountEvent := E.deposited.map depositRow

/-- Whether a deposit went to an atom that its sender had created within 24 hours before. -/
def onOwnAtom (E : FunnelEvents) (de : DepositedRow) : Bool :=
  E.atomCreated.any fun ace =>
    ace.creator = de.sender && ace.termId = de.termId
      && ace.blockTimestamp ≤ de.blockTimestamp
      && de.blockTimestamp ≤ ace.blockTimestamp + intervalDay

def ownAtomDepositRows (E : FunnelEvents) : List AccountEvent :=
  (E.deposited.filter (onOwnAtom E)).map depositRow

variable {E} {E' : FunnelEvents}

theorem atomRows_mono (h : E.Within E') : (atomRows E).Sublist (atomRows E') :=
  h.atomCreated.map _

theorem tripleRows_mono (h : E.Within E') : (tripleRows E).Sublist (tripleRows E') :=
  h.tripleCreated.map _

theorem depositRows_mono (h : E.Within E') : (depositRows E).Sublist (depositRows E') :=
  h.deposited.map _

/-- More atoms make more deposits count. -/
theorem ownAtomDepositRows_mono (h : E.Within E') :
    (ownAtomDepositRows E).Sublist (ownAtomDepositRows E') := by
  have hown : ∀ de, onOwnAtom E de = true → onOwnAtom E' de = true := fun de hde => by
    obtain ⟨ace, hace, hmatch⟩ := List.any_eq_true.mp hde
    exact List.any_eq_true.mpr ⟨ace, h.atomCreated.mem hace, hmatch⟩
  exact ((h.deposited.filter _).trans (List.monotone_filter_right _ hown)).map depositRow

/-- First an atom, then a deposit within 30 days. -/
def onboarding : FunnelSteps where
  funnel := .onboarding
  first := atomRows
  first_mono := atomRows_mono
  later := [⟨depositRows, depositRows_mono, false, 30 * intervalDay, 0⟩]

/-- First a deposit, then a later one within seven days. -/
def activation : FunnelSteps where
  funnel := .activation
  first := depositRows
  first_mono := depositRows_mono
  later := [⟨depositRows, depositRows_mono, true, 7 * intervalDay, 0⟩]

/-- First an atom, then a later triple, and the fifth atom, within 90 days. -/
def creator : FunnelSteps where
  funnel := .creator
  first := atomRows
  first_mono := atomRows_mono
  later := [⟨tripleRows, tripleRows_mono, true, 90 * intervalDay, 0⟩,
    ⟨atomRows, atomRows_mono, false, 90 * intervalDay, 4⟩]

/-- First an atom, then a deposit on one of one's own within 24 hours. -/
def crossFeature : FunnelSteps where
  funnel := .crossFeature
  first := atomRows
  first_mono := atomRows_mono
  later := [⟨ownAtomDepositRows, ownAtomDepositRows_mono, false, intervalDay, 0⟩]

def computeOnboardingFunnel (E : FunnelEvents) : FunnelEventTable → FunnelEventTable :=
  computeFunnel E onboarding

def computeActivationFunnel (E : FunnelEvents) : FunnelEventTable → FunnelEventTable :=
  computeFunnel E activation

def computeCreatorFunnel (E : FunnelEvents) : FunnelEventTable → FunnelEventTable :=
  computeFunnel E creator

def computeCrossFeatureFunnel (E : FunnelEvents) : FunnelEventTable → FunnelEventTable :=
  computeFunnel E crossFeature

end FunnelRepo

/-- One cycle of the funnel tracker. -/
def FunnelTrackerProjection.runCycle (E : FunnelEvents) (t : FunnelEventTable) :
    FunnelEventTable :=
  let t := FunnelRepo.computeOnboardingFunnel E t
  let t := FunnelRepo.computeActivationFunnel E t
  let t := FunnelRepo.computeCreatorFunnel E t
  FunnelRepo.computeCrossFeatureFunnel E t
