import IntuitionCore.Library.Groups
import IntuitionCore.Library.RowNumber
import IntuitionCore.Library.Run
import IntuitionCore.Library.Table
import IntuitionCore.Projections.Tables
import Mathlib.Algebra.Group.Prod

/-!
# Topic affinities

A row of `user_topic_affinity` says how often an account changed its positions in a term, and
with how much capital. Once a day the rows are computed from all of `position_change`; the other
cycles add what the rows after a checkpoint come to, and then save the time of the last of them
as the next checkpoint, in a transaction of its own.

The statements of a computation see what was committed before each of them, so changes may
arrive between the one that adds up rows and the one that reads the time of the last. Of the
rows of an account only the first ones by score are inserted and kept; rows of equal score may
stand in any order. Logarithms are those of the database: what a score is, and what is left of
it in a `REAL` column, is a parameter.

Times are counted in microseconds, and days from 1970.
-/

namespace UserActivityRepo

/-- A row of `position_change`, with its key. -/
structure PositionChange where
  eventId : String
  ts : ℤ
  row : PositionChangeRow
  deriving DecidableEq, Repr

/-- The primary key of `user_topic_affinity`. -/
structure AffinityKey where
  accountId : String
  termId : String
  deriving DecidableEq, Repr

/-- The pair that a change is grouped by. -/
def PositionChange.affinityKey (c : PositionChange) : AffinityKey :=
  ⟨c.row.accountId, c.row.termId⟩

/-- `TOP_N_AFFINITIES`. -/
def topNAffinities : ℕ := 50

/-- The formula of the score, which takes a count, a sum, and whether the last interaction is
recent. -/
structure AffinityFormula (D R : Type) where
  score : ℕ → ℚ → Bool → D
  real : D → R

/-- The columns that `filtered` computes of a group. -/
structure Interactions where
  interactionCount : ℕ
  totalCapitalDeployed : ℚ
  lastInteractionAt : Option ℤ
  deriving DecidableEq, Repr

/-- A row of `user_topic_affinity`. -/
structure UserTopicAffinity (R : Type) where
  interactionCount : ℕ
  totalCapitalDeployed : ℚ
  affinityScore : R
  lastInteractionAt : Option ℤ
  deriving DecidableEq, Repr

abbrev AffinityTable (R : Type) : Type := Table AffinityKey (UserTopicAffinity R)

/-- `INTERVAL '30 days'`. -/
def thirtyDays : ℤ := 30 * 86_400_000_000

/-- `GREATEST`, which passes over nulls. -/
def greatest : Option ℤ → Option ℤ → Option ℤ := Option.merge max

section Rows

variable {D R : Type} (F : AffinityFormula D R) (now : ℤ)

namespace Interactions

/-- The score of a group. -/
def affinityScore (i : Interactions) : D :=
  F.score i.interactionCount i.totalCapitalDeployed
    (i.lastInteractionAt.any fun last => now - thirtyDays < last)

/-- The row of a group. -/
def toRow (i : Interactions) : UserTopicAffinity R where
  interactionCount := i.interactionCount
  totalCapitalDeployed := i.totalCapitalDeployed
  affinityScore := F.real (i.affinityScore F now)
  lastInteractionAt := i.lastInteractionAt

/-- What a stored row comes to with those of a group. -/
def addTo (r : UserTopicAffinity R) (i : Interactions) : Interactions where
  interactionCount := r.interactionCount + i.interactionCount
  totalCapitalDeployed := r.totalCapitalDeployed + i.totalCapitalDeployed
  lastInteractionAt := greatest r.lastInteractionAt i.lastInteractionAt

end Interactions

/-- The row that `FULL_UPSERT_SQL` leaves. -/
def fullUpsert (_ : Option (UserTopicAffinity R)) (i : Interactions) : UserTopicAffinity R :=
  i.toRow F now

/-- The row that `INCREMENTAL_UPSERT_SQL` leaves. -/
def incrementalUpsert (r : Option (UserTopicAffinity R)) (i : Interactions) :
    UserTopicAffinity R :=
  (r.elim i fun r => i.addTo r).toRow F now

end Rows

/-- The columns of a group. -/
def interactions (changes : List PositionChange) (k : AffinityKey) : Interactions :=
  let rows := Groups.group PositionChange.affinityKey changes k
  { interactionCount := rows.length
    totalCapitalDeployed := (rows.map fun c => c.row.assetsIn).sum
    lastInteractionAt := (rows.map PositionChange.ts).max? }

/-- The pairs of an account. -/
def accountPairs (changes : List PositionChange) (a : String) : Finset AffinityKey :=
  ((Groups.keys PositionChange.affinityKey changes).filter fun k => k.accountId = a).toFinset

section Compute

variable {D R : Type} [LinearOrder D] [LinearOrder R]

/-- What happens while affinities are computed: the time of the transaction, the changes that
arrive after its first statement, and how its windows put rows of equal score. -/
structure AffinityRun (D R : Type) [LinearOrder D] [LinearOrder R] where
  now : ℤ
  arriving : List PositionChange
  upsertOrder : RowNumbering AffinityKey D
  pruneOrder : RowNumbering AffinityKey (WithBot R)

variable (F : AffinityFormula D R) (run : AffinityRun D R)

/-- The groups that are inserted. -/
def scoredGroups (filtered : List PositionChange) : List (AffinityKey × Interactions) :=
  let score k := (interactions filtered k).affinityScore F run.now
  let rank k := (run.upsertOrder (accountPairs filtered k.accountId) score).number k
  ((Groups.keys PositionChange.affinityKey filtered).filter fun k => rank k ≤ topNAffinities).map
    fun k => (k, interactions filtered k)

/-- Delete the rows that are not among the first ones of their accounts. -/
def prune (t : AffinityTable R) : AffinityTable R :=
  let score k : WithBot R := (t.lookup k).map UserTopicAffinity.affinityScore
  let rank k := (run.pruneOrder (t.keys.filter fun k' => k'.accountId = k.accountId) score).number k
  t.deleteRows fun k _ => topNAffinities < rank k

/-- The changes a computation is about: those after a time, or all. -/
def filtered (since : Option ℤ) (changes : List PositionChange) : List PositionChange :=
  since.elim changes fun since => changes.filter fun c => since < c.ts

/-- Add a change, unless it is there. -/
def insertPositionChange (changes : List PositionChange) (c : PositionChange) :
    List PositionChange :=
  if changes.any fun c' => c'.eventId = c.eventId ∧ c'.ts = c.ts then changes else changes ++ [c]

/-- The changes after the first statement of a computation. -/
def AffinityRun.after (changes : List PositionChange) : List PositionChange :=
  run.arriving.foldl insertPositionChange changes

/-- The rows a computation leaves, and the time of the last change it read. -/
def computeTopicAffinity (since : Option ℤ) (changes : List PositionChange)
    (t : AffinityTable R) : AffinityTable R × Option ℤ :=
  let upsert := since.elim (fullUpsert F run.now) fun _ => incrementalUpsert F run.now
  let maxTs := ((filtered since (run.after changes)).map PositionChange.ts).max?
  (prune run (t.upsertAll upsert (scoredGroups F run (filtered since changes))), maxTs)

end Compute

/-! ## What a computation comes to -/

/-- How many changes of a pair there are, and how much capital went into them. -/
def tally (changes : List PositionChange) (k : AffinityKey) : ℕ × ℚ :=
  let rows := Groups.group PositionChange.affinityKey changes k
  (rows.length, (rows.map fun c => c.row.assetsIn).sum)

def UserTopicAffinity.amounts {R : Type} (r : UserTopicAffinity R) : ℕ × ℚ :=
  (r.interactionCount, r.totalCapitalDeployed)

/-- The amounts of the row of a pair; there are none if there is no row. -/
def storedAmounts {R : Type} (t : AffinityTable R) (k : AffinityKey) : ℕ × ℚ :=
  (t.lookup k).elim 0 UserTopicAffinity.amounts

/-- An account has no more pairs than are kept. -/
def FewTerms (changes : List PositionChange) (a : String) : Prop :=
  (accountPairs changes a).card ≤ topNAffinities

instance (changes : List PositionChange) (a : String) : Decidable (FewTerms changes a) :=
  Nat.decLe _ _

section Tally

variable {changes changes' : List PositionChange} {a : String} {k : AffinityKey}

variable (changes changes' k) in
theorem tally_append : tally (changes ++ changes') k = tally changes k + tally changes' k := by
  unfold tally
  rw [Groups.group_append]
  exact Prod.ext List.length_append (by simp)

theorem tally_eq_zero (h : k ∉ Groups.keys PositionChange.affinityKey changes) :
    tally changes k = 0 := by
  unfold tally
  rw [Groups.group_eq_nil h]
  rfl

/-- **A tally is split by a condition.** -/
theorem tally_filter_add (p : PositionChange → Bool) :
    tally (changes.filter p) k + tally (changes.filter fun c => !p c) k = tally changes k := by
  induction changes with
  | nil => exact add_zero 0
  | cons c changes ih =>
    have hcons (cs : List PositionChange) : tally (c :: cs) k = tally [c] k + tally cs k :=
      tally_append [c] cs k
    cases hp : p c with
    | true =>
      rw [List.filter_cons_of_pos hp, List.filter_cons_of_neg (by simp [hp]),
        hcons (changes.filter p), hcons changes, add_assoc, ih]
    | false =>
      rw [List.filter_cons_of_neg (by simp [hp]), List.filter_cons_of_pos (by simp [hp]),
        hcons (changes.filter fun c => !p c), hcons changes, add_left_comm, ih]

theorem mem_accountPairs :
    k ∈ accountPairs changes a
      ↔ k ∈ Groups.keys PositionChange.affinityKey changes ∧ k.accountId = a := by
  unfold accountPairs
  rw [List.mem_toFinset, List.mem_filter, decide_eq_true_iff]

theorem accountPairs_subset (h : changes ⊆ changes') :
    accountPairs changes a ⊆ accountPairs changes' a := by
  intro k hk
  obtain ⟨hkeys, ha⟩ := mem_accountPairs.mp hk
  obtain ⟨c, hc, rfl⟩ := Groups.mem_keys.mp hkeys
  exact mem_accountPairs.mpr ⟨Groups.mem_keys.mpr ⟨c, h hc, rfl⟩, ha⟩

theorem FewTerms.subset (h : FewTerms changes' a) (hsub : changes ⊆ changes') :
    FewTerms changes a :=
  (Finset.card_le_card (accountPairs_subset hsub)).trans h

end Tally

section Spec

variable {D R : Type} [LinearOrder D] [LinearOrder R] {F : AffinityFormula D R}
variable {run : AffinityRun D R} {t : AffinityTable R} {changes : List PositionChange}
variable {since : Option ℤ} {k : AffinityKey}

theorem filtered_subset : filtered since changes ⊆ changes := by
  cases since with
  | none => exact List.Subset.refl _
  | some since => exact List.filter_subset_self _

/-- The groups of an account with few terms are all inserted. -/
theorem lookup_scoredGroups (hfew : FewTerms changes k.accountId) :
    (scoredGroups F run changes).lookup k
      = if k ∈ Groups.keys PositionChange.affinityKey changes then some (interactions changes k)
        else none := by
  unfold scoredGroups
  dsimp only
  rw [Groups.lookup_map_keys]
  refine if_congr ?_ rfl rfl
  rw [List.mem_filter]
  refine and_iff_left_of_imp fun hk => decide_eq_true ?_
  exact RowNumbers.number_le _ (mem_accountPairs.mpr ⟨hk, rfl⟩) hfew

/-- The rows of an account with few rows are all kept. -/
theorem lookup_prune
    (hfew : (t.keys.filter fun k' => k'.accountId = k.accountId).card ≤ topNAffinities) :
    (prune run t).lookup k = t.lookup k := by
  unfold prune
  rw [Table.lookup_deleteRows]
  cases ht : t.lookup k with
  | none => rfl
  | some r =>
    have hk : k ∈ t.keys.filter fun k' => k'.accountId = k.accountId :=
      Finset.mem_filter.mpr ⟨Finmap.mem_keys.mpr (Finmap.mem_of_lookup_eq_some ht), rfl⟩
    refine Option.filter_eq_some_iff.mpr ⟨rfl, ?_⟩
    rw [Bool.not_eq_true', decide_eq_false_iff_not, not_lt]
    exact RowNumbers.number_le _ hk hfew

/-- Pruning adds no row. -/
theorem mem_of_mem_prune (h : k ∈ prune run t) : k ∈ t := by
  obtain ⟨r, hr⟩ := Finmap.mem_iff.mp h
  unfold prune at hr
  rw [Table.lookup_deleteRows] at hr
  exact Finmap.mem_of_lookup_eq_some (Option.filter_eq_some_iff.mp hr).1

theorem nodup_scoredGroups : ((scoredGroups F run changes).map Prod.fst).Nodup := by
  unfold scoredGroups
  rw [List.map_map]
  exact (List.map_id _).symm ▸ (List.nodup_dedup _).filter _

/-- The pairs of the groups that are inserted are among those of the changes. -/
theorem mem_keys_of_lookup_scoredGroups (h : (scoredGroups F run changes).lookup k ≠ none) :
    k ∈ Groups.keys PositionChange.affinityKey changes := by
  unfold scoredGroups at h
  dsimp only at h
  rw [Groups.lookup_map_keys] at h
  by_contra hk
  exact h (if_neg fun hmem => hk (List.mem_filter.mp hmem).1)

theorem mem_upsertAll_scoredGroups
    {upsert : Option (UserTopicAffinity R) → Interactions → UserTopicAffinity R}
    (h : k ∈ t.upsertAll upsert (scoredGroups F run (filtered since changes))) :
    k ∈ t ∨ k ∈ Groups.keys PositionChange.affinityKey changes := by
  rw [← Finmap.lookup_isSome, Table.lookup_upsertAll nodup_scoredGroups] at h
  cases hscored : (scoredGroups F run (filtered since changes)).lookup k with
  | none =>
    rw [hscored] at h
    exact .inl (Finmap.lookup_isSome.mp h)
  | some i =>
    have hkeys := mem_keys_of_lookup_scoredGroups (hscored ▸ Option.some_ne_none i)
    obtain ⟨c, hc, rfl⟩ := Groups.mem_keys.mp hkeys
    exact .inr (Groups.mem_keys.mpr ⟨c, filtered_subset hc, rfl⟩)

/-- **The rows after a computation are of rows that were there, or of changes.** -/
theorem mem_computeTopicAffinity (h : k ∈ (computeTopicAffinity F run since changes t).1) :
    k ∈ t ∨ k ∈ Groups.keys PositionChange.affinityKey changes :=
  mem_upsertAll_scoredGroups (mem_of_mem_prune h)

omit [LinearOrder D] [LinearOrder R] in
/-- The full upsert leaves what a group comes to, and the incremental one adds it. -/
theorem amounts_upsert (r : Option (UserTopicAffinity R)) (i : Interactions) (now : ℤ) :
    (since.elim (fullUpsert F now) (fun _ => incrementalUpsert F now) r i).amounts
      = since.elim 0 (fun _ => r.elim 0 UserTopicAffinity.amounts)
        + (i.interactionCount, i.totalCapitalDeployed) := by
  cases since with
  | none => exact (zero_add _).symm
  | some since =>
    cases r with
    | none => exact (zero_add _).symm
    | some r => rfl

/-- **What a computation makes of the row of a pair**, if its account has few terms: the tally
of all changes, or that of those after the checkpoint on top of what was stored. -/
theorem storedAmounts_computeTopicAffinity
    (hsub : ∀ k ∈ t, k ∈ Groups.keys PositionChange.affinityKey changes)
    (hfew : FewTerms changes k.accountId) :
    storedAmounts (computeTopicAffinity F run since changes t).1 k
      = since.elim 0 (fun _ => storedAmounts t k) + tally (filtered since changes) k := by
  have hkept (upsert : Option (UserTopicAffinity R) → Interactions → UserTopicAffinity R) :
      ((t.upsertAll upsert (scoredGroups F run (filtered since changes))).keys.filter
        fun k' => k'.accountId = k.accountId).card ≤ topNAffinities := by
    refine (Finset.card_le_card fun k' hk' => ?_).trans hfew
    obtain ⟨hmem, haccount⟩ := Finset.mem_filter.mp hk'
    obtain ht | hkeys := mem_upsertAll_scoredGroups (Finmap.mem_keys.mp hmem)
    · exact mem_accountPairs.mpr ⟨hsub k' ht, haccount⟩
    · exact mem_accountPairs.mpr ⟨hkeys, haccount⟩
  unfold storedAmounts computeTopicAffinity
  rw [lookup_prune (hkept _), Table.lookup_upsertAll nodup_scoredGroups,
    lookup_scoredGroups (hfew.subset filtered_subset)]
  by_cases hk : k ∈ Groups.keys PositionChange.affinityKey (filtered since changes)
  · rw [if_pos hk]
    exact amounts_upsert _ _ _
  · rw [if_neg hk, tally_eq_zero hk]
    cases since with
    | none =>
      rw [Finmap.lookup_eq_none.mpr fun hmem => hk (hsub k hmem)]
      exact (add_zero 0).symm
    | some since => exact (add_zero _).symm

end Spec

end UserActivityRepo
