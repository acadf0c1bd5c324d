import IntuitionCore.Projections.Worker
import Mathlib.Algebra.BigOperators.Group.List.Basic
import Mathlib.Algebra.Group.Prod

/-!
# Protocol statistics

A projection keeps one row of totals: how many atoms and triples there are, how many
deposits and redemptions and of what volume, and the fees. What a batch adds to it is
tallied first, and then added in one statement, after which the new totals are written
down as a row of the history. A batch that adds nothing writes nothing.

The row is added to and not computed again. So it has the sum of all batches that were
processed, whether their events are new or not, and the history is the totals as they
were after each of them.
-/

/-- What a batch adds to the totals. -/
structure Deltas where
  atoms : ℕ := 0
  triples : ℕ := 0
  depositsCount : ℕ := 0
  redemptionsCount : ℕ := 0
  depositVolume : ℚ := 0
  redemptionVolume : ℚ := 0
  fees : ℚ := 0
  deriving DecidableEq, Repr

/-- The row of `stats`, as the migration seeds it. No statement changes
`total_accounts`. -/
structure StatsRow where
  totalAtoms : ℕ := 0
  totalTriples : ℕ := 0
  totalAccounts : ℕ := 0
  totalDepositsCount : ℕ := 0
  totalRedemptionsCount : ℕ := 0
  totalDepositVolume : ℚ := 0
  totalRedemptionVolume : ℚ := 0
  totalFees : ℚ := 0
  deriving DecidableEq, Repr

/-- A row of `stats_history`. -/
structure StatsHistoryRow extends StatsRow where
  ts : ℤ
  deriving DecidableEq, Repr

/-- The tables of the projection. A row of the history has no key, and is appended. -/
structure StatsDb where
  stats : StatsRow := {}
  statsHistory : List StatsHistoryRow := []

namespace ProtocolStatsProjection

/-- Tally what an event adds. -/
def accumulateTyped (d : Deltas) (event : ParsedEvent) : Deltas :=
  match event with
  | .atomCreated _ _ => { d with atoms := d.atoms + 1 }
  | .tripleCreated _ _ => { d with triples := d.triples + 1 }
  | .deposited _ data =>
    { d with
      depositsCount := d.depositsCount + 1
      depositVolume := d.depositVolume + data.assetsAfterFees.val }
  | .redeemed _ data =>
    { d with
      redemptionsCount := d.redemptionsCount + 1
      redemptionVolume := d.redemptionVolume + data.assets.val }
  | .protocolFeeAccrued _ data => { d with fees := d.fees + data.amount.val }
  | .atomContextRegistered _ _ | .sharePriceChanged _ _ => d
  | .unknown _ => d

/-- The greatest time of a batch. There is one where there is anything to add. -/
def maxTs (events : List ParsedEvent) : ℤ :=
  (events.map fun e => e.metadata.blockTimestamp).max?.getD 0

/-- Add what a batch adds. -/
def addDeltas (stats : StatsRow) (d : Deltas) : StatsRow :=
  { stats with
    totalAtoms := stats.totalAtoms + d.atoms
    totalTriples := stats.totalTriples + d.triples
    totalDepositsCount := stats.totalDepositsCount + d.depositsCount
    totalRedemptionsCount := stats.totalRedemptionsCount + d.redemptionsCount
    totalDepositVolume := stats.totalDepositVolume + d.depositVolume
    totalRedemptionVolume := stats.totalRedemptionVolume + d.redemptionVolume
    totalFees := stats.totalFees + d.fees }

def processParsedBatch (db : StatsDb) (events : List ParsedEvent) : StatsDb :=
  let d := events.foldl accumulateTyped {}
  if d.atoms = 0 ∧ d.triples = 0 ∧ d.depositsCount = 0 ∧ d.redemptionsCount = 0
      ∧ d.depositVolume = 0 ∧ d.redemptionVolume = 0 ∧ d.fees = 0 then db
  else
    let stats := addDeltas db.stats d
    { stats
      statsHistory := db.statsHistory ++ [{ toStatsRow := stats, ts := maxTs events }] }

/-! ## Totals -/

/-- The totals of a row, in the order of the columns: the counts, and the amounts. -/
abbrev Totals := (ℕ × ℕ × ℕ × ℕ) × ℚ × ℚ × ℚ

def deltaTotals (d : Deltas) : Totals :=
  ((d.atoms, d.triples, d.depositsCount, d.redemptionsCount), d.depositVolume, d.redemptionVolume,
    d.fees)

def rowTotals (r : StatsRow) : Totals :=
  ((r.totalAtoms, r.totalTriples, r.totalDepositsCount, r.totalRedemptionsCount),
    r.totalDepositVolume, r.totalRedemptionVolume, r.totalFees)

/-- What an event adds to the totals. -/
def contribution (event : ParsedEvent) : Totals := deltaTotals (accumulateTyped {} event)

/-- **A tally adds up what its events add.** -/
theorem deltaTotals_foldl (events : List ParsedEvent) (d : Deltas) :
    deltaTotals (events.foldl accumulateTyped d)
      = deltaTotals d + (events.map contribution).sum := by
  have hstep : ∀ (d : Deltas) (e : ParsedEvent),
      deltaTotals (accumulateTyped d e) = deltaTotals d + contribution e := by
    intro d e
    cases e <;> simp [contribution, deltaTotals, accumulateTyped]
  induction events generalizing d with
  | nil => exact (add_zero _).symm
  | cons e events ih => rw [List.foldl_cons, ih, hstep, List.map_cons, List.sum_cons, add_assoc]

/-- What a batch adds to the totals. -/
def batchTotals (events : List ParsedEvent) : Totals :=
  deltaTotals (events.foldl accumulateTyped {})

theorem batchTotals_eq (events : List ParsedEvent) :
    batchTotals events = (events.map contribution).sum :=
  (deltaTotals_foldl events {}).trans (zero_add _)

/-- **What a batch does**: one that adds nothing changes nothing, and any other one adds to
the totals and writes them down. -/
theorem processParsedBatch_eq (db : StatsDb) (events : List ParsedEvent) :
    processParsedBatch db events =
      if batchTotals events = 0 then db
      else
        { stats := addDeltas db.stats (events.foldl accumulateTyped {})
          statsHistory := db.statsHistory
            ++ [{ toStatsRow := addDeltas db.stats (events.foldl accumulateTyped {}),
                  ts := maxTs events }] } := by
  unfold processParsedBatch
  refine if_congr ?_ rfl rfl
  simp [batchTotals, deltaTotals, Prod.ext_iff, and_assoc]

theorem rowTotals_addDeltas (r : StatsRow) (d : Deltas) :
    rowTotals (addDeltas r d) = rowTotals r + deltaTotals d := rfl

/-- **The totals are added to.** -/
theorem rowTotals_processParsedBatch (db : StatsDb) (events : List ParsedEvent) :
    rowTotals (processParsedBatch db events).stats
      = rowTotals db.stats + (events.map contribution).sum := by
  rw [processParsedBatch_eq, ← batchTotals_eq]
  by_cases h : batchTotals events = 0
  · rw [if_pos h, h, add_zero]
  · rw [if_neg h]
    exact rowTotals_addDeltas _ _

/-! ## The history -/

/-- **The history leads up to the totals**: its last row is theirs, or nothing was ever
added; the counts never fall from one row to the next. -/
structure Recorded (db : StatsDb) : Prop where
  last : (db.statsHistory.getLast?.elim {} fun r => r.toStatsRow) = db.stats
  counts : db.statsHistory.Pairwise fun r r' =>
    (rowTotals r.toStatsRow).1 ≤ (rowTotals r'.toStatsRow).1
  counts_le : ∀ r ∈ db.statsHistory, (rowTotals r.toStatsRow).1 ≤ (rowTotals db.stats).1
  no_accounts : db.stats.totalAccounts = 0

theorem recorded_empty : Recorded {} := ⟨rfl, .nil, by simp, rfl⟩

theorem Recorded.processParsedBatch {db : StatsDb} (h : Recorded db)
    (events : List ParsedEvent) :
    Recorded (ProtocolStatsProjection.processParsedBatch db events) := by
  rw [processParsedBatch_eq]
  by_cases hzero : batchTotals events = 0
  · rw [if_pos hzero]
    exact h
  rw [if_neg hzero]
  have hle : (rowTotals db.stats).1
      ≤ (rowTotals (addDeltas db.stats (events.foldl accumulateTyped {}))).1 := by
    exact ⟨Nat.le_add_right _ _, Nat.le_add_right _ _, Nat.le_add_right _ _,
      Nat.le_add_right _ _⟩
  refine ⟨by simp, ?_, fun r hr => ?_, h.no_accounts⟩
  · refine List.pairwise_append.mpr ⟨h.counts, List.pairwise_singleton _ _, fun r hr r' hr' => ?_⟩
    rw [List.mem_singleton.mp hr']
    exact (h.counts_le r hr).trans hle
  · obtain hr | hr := List.mem_append.mp hr
    · exact (h.counts_le r hr).trans hle
    · rw [List.mem_singleton.mp hr]

end ProtocolStatsProjection
