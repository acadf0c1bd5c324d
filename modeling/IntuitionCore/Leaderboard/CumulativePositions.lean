import IntuitionCore.Library.Run
import IntuitionCore.Library.RunningTotals
import IntuitionCore.Projections.Repo
import Mathlib.Algebra.Order.Ring.Rat

/-!
# Cumulative positions

The changes of positions are summed by the hour in a view, and the sums up to
each hour are kept in a table, from which the leaderboard takes what a position
was at a time. A migration fills the table from the view. After that a job goes
on from the last hour of the table, and adds the hours after it.

The view is a real-time aggregate: it shows the hour that is still filling. The
job takes that hour as it finds it, and never looks at it again, nor at an
earlier one. A change that comes later than the run which took its hour is
missing from the row of its hour and from every later row of its position.
-/

/-- The amounts that are summed: a change, or the changes of an hour, or those
up to an hour. -/
@[ext] structure PositionAmounts where
  shares : ℚ
  assetsIn : ℚ
  assetsOut : ℚ
  sharesIn : ℚ
  sharesOut : ℚ
  deriving DecidableEq, Repr

namespace PositionAmounts

instance : Zero PositionAmounts := ⟨⟨0, 0, 0, 0, 0⟩⟩

instance : Add PositionAmounts :=
  ⟨fun a b => ⟨a.shares + b.shares, a.assetsIn + b.assetsIn, a.assetsOut + b.assetsOut,
    a.sharesIn + b.sharesIn, a.sharesOut + b.sharesOut⟩⟩

instance : Neg PositionAmounts :=
  ⟨fun a => ⟨-a.shares, -a.assetsIn, -a.assetsOut, -a.sharesIn, -a.sharesOut⟩⟩

/-- Amounts are added column by column. -/
instance : AddCommGroup PositionAmounts where
  add_assoc _ _ _ := PositionAmounts.ext (add_assoc _ _ _) (add_assoc _ _ _) (add_assoc _ _ _)
    (add_assoc _ _ _) (add_assoc _ _ _)
  zero_add _ := PositionAmounts.ext (zero_add _) (zero_add _) (zero_add _) (zero_add _)
    (zero_add _)
  add_zero _ := PositionAmounts.ext (add_zero _) (add_zero _) (add_zero _) (add_zero _)
    (add_zero _)
  add_comm _ _ := PositionAmounts.ext (add_comm _ _) (add_comm _ _) (add_comm _ _) (add_comm _ _)
    (add_comm _ _)
  neg_add_cancel _ := PositionAmounts.ext (neg_add_cancel _) (neg_add_cancel _)
    (neg_add_cancel _) (neg_add_cancel _) (neg_add_cancel _)
  nsmul := nsmulRec
  zsmul := zsmulRec

end PositionAmounts

namespace PositionCumulative

open RunningTotals

/-! ## The view and the table -/

/-- A row of `position_change`, with its time. -/
abbrev TimedChange := ℤ × PositionChangeRow

/-- The hour of a time in seconds. -/
def timeBucket (ts : ℤ) : ℤ := ts - ts % 3600

/-- The rows of `position_change`. -/
def positionChanges (db : Db) : Multiset TimedChange :=
  db.positionChange.entries.map fun row => (row.1.2, row.2)

/-- A change that is inserted under a new key is one more. -/
theorem positionChanges_insertPositionChange (db : Db) (eventId accountId termId curveId
    eventType : String) (sharesDelta assetsIn assetsOut executionPrice : BigDecimal)
    (blockNumber : ℕ) (transactionHash : String) (ts : ℤ)
    (h : (eventId, ts) ∉ db.positionChange) :
    positionChanges (PositionRepo.insertPositionChange db eventId accountId termId curveId
        eventType sharesDelta assetsIn assetsOut executionPrice blockNumber transactionHash ts)
      = (ts, ⟨accountId, termId, curveId, eventType, sharesDelta.val, assetsIn.val, assetsOut.val,
          executionPrice.val, blockNumber, transactionHash⟩) ::ₘ positionChanges db := by
  show (db.positionChange.insertIfAbsent (eventId, ts) _).entries.map _ = _
  rw [Table.entries_insertIfAbsent h, Multiset.map_cons]
  rfl

/-- How `position_change_hourly` groups changes, and what it sums. -/
def hourly : Bucketing TimedChange PositionKey ℤ PositionAmounts where
  owner change := ⟨change.2.accountId, change.2.termId, change.2.curveId⟩
  bucket change := timeBucket change.1
  amount change :=
    { shares := change.2.sharesDelta
      assetsIn := change.2.assetsIn
      assetsOut := change.2.assetsOut
      sharesIn := max change.2.sharesDelta 0
      sharesOut := max (-change.2.sharesDelta) 0 }

/-- The tables of sums by position and hour. -/
abbrev HourlyTable := Table (PositionKey × ℤ) PositionAmounts

/-- The view `position_change_hourly`, as it is at a time. -/
def positionChangeHourly (changes : Multiset TimedChange) : HourlyTable :=
  grouped hourly changes

/-- The statement of the migration that fills `position_cumulative_hourly`. Rows
that are there are left as they are. -/
def backfill (positionChangeHourly cumulative : HourlyTable) : HourlyTable :=
  cumulative ∪ fullPass positionChangeHourly

/-- The job: there is nothing to go on from in an empty table, and it does
nothing. Otherwise the hours after the last one are added up, on top of the last
row of their position. -/
def refreshPositionCumulativeHourly (positionChangeHourly cumulative : HourlyTable) :
    HourlyTable :=
  incrementalPass positionChangeHourly cumulative

/-- What the leaderboard depends on: the changes, the table, and the changes that
were late for it. -/
abbrev State := Kept hourly

/-- The state after the migration, which finds the table empty. -/
def migrated (changes : Multiset TimedChange) : State where
  changes := changes
  totals := backfill (positionChangeHourly changes) ∅
  late := 0

/-- Changes have come, and the job runs. -/
def step (s : State) (new : Multiset TimedChange) : Option State :=
  some { changes := s.changes + new
         totals := refreshPositionCumulativeHourly (positionChangeHourly (s.changes + new)) s.totals
         late := s.late + s.lateOf new }

/-! ## Runs of the job -/

/-- The migration computes the sums from scratch. -/
theorem migrated_eq (changes : Multiset TimedChange) :
    migrated changes = Kept.ofFullPass hourly changes := by
  unfold migrated backfill
  rw [Finmap.empty_union]
  rfl

/-- The migration leaves full sums, and nothing is late. -/
theorem sound_migrated (changes : Multiset TimedChange) :
    (migrated changes).Sound ∧ (migrated changes).Exact := by
  have hsound : (migrated changes).Sound := by
    rw [migrated_eq]
    exact Kept.Sound.ofFullPass changes
  refine ⟨hsound, hsound.exact_iff.mpr fun k _ => ?_⟩
  exact sumUpTo_eq_zero fun c hc => absurd hc (Multiset.notMem_zero c)

/-- **Where every change falls in an hour after the last one of the table, the
rows are full sums after every run.** -/
theorem exact_of_inTime {changes : Multiset TimedChange} {growths : List (Multiset TimedChange)}
    (h : Run.EachStep step Kept.InTime (migrated changes) growths) :
    Run.Always step Kept.Exact (migrated changes) growths := by
  obtain ⟨hsound, hexact⟩ := sound_migrated changes
  exact (hsound.always_exact_iff hexact growths).mpr (Kept.lateCancel_of_inTime (.inr rfl) h)

/-! ## A change in the hour that was taken -/

section SameHour

end SameHour

end PositionCumulative
