import IntuitionCore.Activity.Affinity
import Mathlib.Data.Prod.Lex
import Mathlib.Data.String.Basic

/-!
# Topic affinities over many cycles

Changes of positions arrive in any order of their times, and cycles run in between; the process
may crash after a computation is committed and before its checkpoint is saved. The stored counts
and sums are those of the changes that the last computation found, exactly if, whenever a cycle
adds what comes after its checkpoint, the changes it counts again come to as much as those it
passes over. Where the checkpoint parts the changes that were counted from the others there are
none of either.
-/

namespace UserActivityRepo

/-- The keys of the checkpoint's metadata that belong to the affinities. -/
structure AffinityMetadata where
  topicAffinityLastTs : Option ℤ := none
  topicAffinityLastFullRecomputeDate : Option ℤ := none
  deriving DecidableEq, Repr

namespace AffinityMetadata

/-- Whether a full recompute is due: the stored date is before today, or there is none. -/
def shouldRunDailyAffinityRecompute (m : AffinityMetadata) (today : ℤ) : Bool :=
  m.topicAffinityLastFullRecomputeDate.all fun d => d < today

/-- Merge new values of some of the keys. -/
def merge (m : AffinityMetadata) (date lastTs : Option ℤ) : AffinityMetadata where
  topicAffinityLastTs := lastTs.or m.topicAffinityLastTs
  topicAffinityLastFullRecomputeDate := date.or m.topicAffinityLastFullRecomputeDate

/-- The checkpoint that a cycle computes from; a full recompute has none. -/
def since (m : AffinityMetadata) (today : ℤ) : Option ℤ :=
  if m.shouldRunDailyAffinityRecompute today then none else m.topicAffinityLastTs

end AffinityMetadata

/-- What the cycles read and write. -/
structure AffinityDb (R : Type) where
  /-- In the order in which the changes arrived. -/
  positionChange : List PositionChange := []
  userTopicAffinity : AffinityTable R := ∅
  metadata : AffinityMetadata := {}
  /-- How many changes there were at the last computation. Nothing reads it. -/
  counted : ℕ := 0

namespace AffinityDb

variable {R : Type} (db : AffinityDb R)

/-- The changes that were there at the last computation. -/
def countedChanges : List PositionChange := db.positionChange.take db.counted

/-- Those that arrived since. -/
def newChanges : List PositionChange := db.positionChange.drop db.counted

end AffinityDb

section Cycles

variable {D R : Type} [LinearOrder D] [LinearOrder R]

/-- A computation, the days that the cycle reads before and after it, and whether the process
crashes, or the save fails, once it is committed. -/
structure AffinityCycle (D R : Type) [LinearOrder D] [LinearOrder R] extends AffinityRun D R where
  today : ℤ
  todayAfter : ℤ
  crashes : Bool

inductive AffinityAction (D R : Type) [LinearOrder D] [LinearOrder R] where
  | arrive (c : PositionChange)
  | cycle (c : AffinityCycle D R)

namespace AffinityDb

variable (F : AffinityFormula D R) (db : AffinityDb R)

/-- Phase 5 of a cycle. -/
def cycle (c : AffinityCycle D R) : AffinityDb R :=
  let computed := computeTopicAffinity F c.toAffinityRun (db.metadata.since c.today)
    db.positionChange db.userTopicAffinity
  let daily := db.metadata.shouldRunDailyAffinityRecompute c.today
  let date := if daily then some c.todayAfter else none
  { positionChange := c.after db.positionChange
    userTopicAffinity := computed.1
    metadata := if c.crashes then db.metadata else db.metadata.merge date computed.2
    counted := db.positionChange.length }

/-- A change arrives, or a cycle runs. -/
def step : AffinityDb R → AffinityAction D R → Option (AffinityDb R)
  | db, .arrive c => some { db with positionChange := insertPositionChange db.positionChange c }
  | db, .cycle c => some (db.cycle F c)

/-- **The stored amounts are those of all changes** that the last computation found, for each
account that has no more terms than are kept. -/
def Exact (db : AffinityDb R) : Prop :=
  ∀ a, FewTerms db.countedChanges a →
    ∀ t, storedAmounts db.userTopicAffinity ⟨a, t⟩ = tally db.countedChanges ⟨a, t⟩

/-- The changes that were counted, and come after a checkpoint. -/
def countedAgain (since : ℤ) : List PositionChange :=
  db.countedChanges.filter fun c => since < c.ts

/-- The changes that were not counted, and do not come after a checkpoint. -/
def passedOver (since : ℤ) : List PositionChange :=
  db.newChanges.filter fun c => !decide (since < c.ts)

/-- What a cycle counts again comes to as much as what it passes over. -/
def CountsOnce (db : AffinityDb R) : AffinityAction D R → Prop
  | .arrive _ => True
  | .cycle c => ∀ since ∈ db.metadata.since c.today, ∀ a, FewTerms db.positionChange a →
      ∀ t, tally (db.countedAgain since) ⟨a, t⟩ = tally (db.passedOver since) ⟨a, t⟩

/-- What is true of every database that is reached. -/
structure Inv (db : AffinityDb R) : Prop where
  counted_le : db.counted ≤ db.positionChange.length
  mem_keys : ∀ k ∈ db.userTopicAffinity,
    k ∈ Groups.keys PositionChange.affinityKey db.countedChanges

end AffinityDb

end Cycles

/-! ## Changes that were counted -/

section Changes

variable {R : Type} {db : AffinityDb R} {changes : List PositionChange}

variable (changes) in
/-- Changes are only added at the end. -/
theorem exists_insertPositionChange (c : PositionChange) :
    ∃ more, insertPositionChange changes c = changes ++ more := by
  unfold insertPositionChange
  split
  · exact ⟨[], (List.append_nil _).symm⟩
  · exact ⟨[c], rfl⟩

variable (changes) in
theorem exists_foldl_insertPositionChange (arriving : List PositionChange) :
    ∃ more, arriving.foldl insertPositionChange changes = changes ++ more := by
  induction arriving generalizing changes with
  | nil => exact ⟨[], (List.append_nil _).symm⟩
  | cons c arriving ih =>
    obtain ⟨first, hfirst⟩ := exists_insertPositionChange changes c
    obtain ⟨rest, hrest⟩ := ih (changes ++ first)
    exact ⟨first ++ rest, by rw [List.foldl_cons, hfirst, hrest, List.append_assoc]⟩

namespace AffinityDb

theorem countedChanges_subset : db.countedChanges ⊆ db.positionChange :=
  List.take_subset _ _

/-- An arrival changes nothing that was counted. -/
theorem countedChanges_arrive (h : db.counted ≤ db.positionChange.length) (c : PositionChange) :
    AffinityDb.countedChanges
      { db with positionChange := insertPositionChange db.positionChange c }
      = db.countedChanges := by
  obtain ⟨more, hmore⟩ := exists_insertPositionChange db.positionChange c
  unfold countedChanges
  dsimp only
  rw [hmore, List.take_append_of_le_length h]

theorem Inv.mem_keys_positionChange (h : db.Inv) (k : AffinityKey)
    (hk : k ∈ db.userTopicAffinity) :
    k ∈ Groups.keys PositionChange.affinityKey db.positionChange := by
  obtain ⟨c, hc, rfl⟩ := Groups.mem_keys.mp (h.mem_keys k hk)
  exact Groups.mem_keys.mpr ⟨c, countedChanges_subset hc, rfl⟩

variable (db) in
/-- The changes after a checkpoint are the new ones, with those counted again and without those
passed over. -/
theorem tally_filtered_add (since : ℤ) (k : AffinityKey) :
    tally (filtered (some since) db.positionChange) k + tally (db.passedOver since) k
      = tally (db.countedAgain since) k + tally db.newChanges k := by
  have hfiltered : filtered (some since) db.positionChange
      = db.countedAgain since ++ db.newChanges.filter fun c => since < c.ts := by
    conv_lhs => rw [← List.take_append_drop db.counted db.positionChange]
    exact List.filter_append _ _
  rw [hfiltered, tally_append, add_assoc]
  exact congrArg _ (tally_filter_add _)

/-- **The changes after a checkpoint make up for the new ones** exactly if what is counted again
comes to as much as what is passed over. -/
theorem tally_filtered_iff (since : ℤ) (k : AffinityKey) :
    tally db.countedChanges k + tally (filtered (some since) db.positionChange) k
        = tally db.positionChange k
      ↔ tally (db.countedAgain since) k = tally (db.passedOver since) k := by
  have hsplit : tally db.positionChange k = tally db.countedChanges k + tally db.newChanges k := by
    rw [← tally_append]
    exact congrArg (tally · k) (List.take_append_drop _ _).symm
  have hfiltered := tally_filtered_add db since k
  rw [hsplit, add_right_inj]
  constructor
  · intro heq
    rw [heq, add_comm] at hfiltered
    exact (add_right_cancel hfiltered).symm
  · intro heq
    rw [heq, add_comm] at hfiltered
    exact add_left_cancel hfiltered

/-- Where the checkpoint parts the changes that were counted from the others, none is counted
again or passed over. -/
theorem tally_eq_of_parts {since : ℤ} (hcounted : ∀ c ∈ db.countedChanges, c.ts ≤ since)
    (hnew : ∀ c ∈ db.newChanges, since < c.ts) (k : AffinityKey) :
    tally (db.countedAgain since) k = tally (db.passedOver since) k := by
  have hagain : db.countedAgain since = [] := List.filter_eq_nil_iff.mpr fun c hc =>
    decide_eq_true_iff.not.mpr (not_lt.mpr (hcounted c hc))
  have hpassed : db.passedOver since = [] := List.filter_eq_nil_iff.mpr fun c hc => by
    simpa using hnew c hc
  rw [hagain, hpassed]

end AffinityDb

end Changes

/-! ## One step -/

section Steps

variable {D R : Type} [LinearOrder D] [LinearOrder R] {F : AffinityFormula D R}
variable {db db' : AffinityDb R} {c : AffinityCycle D R}

namespace AffinityDb

/-- A cycle counts all changes it finds. -/
theorem countedChanges_cycle : (db.cycle F c).countedChanges = db.positionChange := by
  obtain ⟨more, hmore⟩ :=
    exists_foldl_insertPositionChange db.positionChange c.arriving
  unfold countedChanges cycle AffinityRun.after
  dsimp only
  rw [hmore, List.take_left]

/-- **Every step keeps the invariant.** -/
theorem Inv.step {action : AffinityAction D R} (h : db.Inv)
    (hstep : AffinityDb.step F db action = some db') : db'.Inv := by
  cases action with
  | arrive c =>
    obtain rfl := Option.some.inj hstep
    refine ⟨?_, ?_⟩
    · obtain ⟨more, hmore⟩ := exists_insertPositionChange db.positionChange c
      dsimp only
      rw [hmore, List.length_append]
      exact h.counted_le.trans (Nat.le_add_right _ _)
    · rw [countedChanges_arrive h.counted_le]
      exact h.mem_keys
  | cycle c =>
    obtain rfl := Option.some.inj hstep
    refine ⟨?_, ?_⟩
    · obtain ⟨more, hmore⟩ :=
        exists_foldl_insertPositionChange db.positionChange c.arriving
      show db.positionChange.length ≤ (c.arriving.foldl _ db.positionChange).length
      rw [hmore, List.length_append]
      exact Nat.le_add_right _ _
    · intro k hk
      rw [countedChanges_cycle]
      obtain hmem | hkeys := mem_computeTopicAffinity hk
      · exact h.mem_keys_positionChange k hmem
      · exact hkeys

/-- **A cycle leaves exact amounts exactly if it counts once.** -/
theorem exact_cycle_iff (h : db.Inv) (hexact : db.Exact) :
    (db.cycle F c).Exact ↔ db.CountsOnce (.cycle c) := by
  have hspec (k : AffinityKey) (hfew : FewTerms db.positionChange k.accountId) :
      storedAmounts (db.cycle F c).userTopicAffinity k
        = (db.metadata.since c.today).elim 0 (fun _ => tally db.countedChanges k)
          + tally (filtered (db.metadata.since c.today) db.positionChange) k := by
    rw [← hexact k.accountId (hfew.subset countedChanges_subset) k.termId]
    exact storedAmounts_computeTopicAffinity h.mem_keys_positionChange hfew
  show (∀ a, FewTerms (db.cycle F c).countedChanges a → ∀ t,
      storedAmounts (db.cycle F c).userTopicAffinity ⟨a, t⟩
        = tally (db.cycle F c).countedChanges ⟨a, t⟩)
    ↔ ∀ since ∈ db.metadata.since c.today, ∀ a, FewTerms db.positionChange a →
      ∀ t, tally (db.countedAgain since) ⟨a, t⟩ = tally (db.passedOver since) ⟨a, t⟩
  rw [countedChanges_cycle]
  cases hsince : db.metadata.since c.today with
  | none =>
    refine iff_of_true (fun a hfew t => ?_) fun since hmem => absurd hmem (Option.not_mem_none _)
    rw [hspec ⟨a, t⟩ hfew, hsince]
    exact zero_add _
  | some since =>
    simp only [Option.mem_some_iff, forall_eq']
    refine forall_congr' fun a => forall_congr' fun hfew => forall_congr' fun t => ?_
    rw [hspec ⟨a, t⟩ hfew, hsince]
    exact tally_filtered_iff since _

/-- **A step keeps exact amounts exactly if it counts once.** -/
theorem exact_step_iff {action : AffinityAction D R} (h : db.Inv) (hexact : db.Exact)
    (hstep : AffinityDb.step F db action = some db') : db'.Exact ↔ db.CountsOnce action := by
  cases action with
  | arrive c =>
    obtain rfl := Option.some.inj hstep
    refine iff_of_true (fun a hfew t => ?_) trivial
    rw [countedChanges_arrive h.counted_le] at hfew ⊢
    exact hexact a hfew t
  | cycle c =>
    obtain rfl := Option.some.inj hstep
    exact exact_cycle_iff h hexact

omit [LinearOrder R] in
theorem inv_start : Inv ({} : AffinityDb R) :=
  ⟨le_rfl, fun _ hk => absurd hk Finmap.notMem_empty⟩

omit [LinearOrder R] in
theorem exact_start : Exact ({} : AffinityDb R) := fun _ _ _ => rfl

end AffinityDb

end Steps

/-! ## Runs -/

section Runs

variable {D R : Type} [LinearOrder D] [LinearOrder R]

open AffinityDb

/-- **The stored amounts are always those of the changes that were found, exactly if every cycle
counts once.** -/
theorem exact_iff_countsOnce (F : AffinityFormula D R) (actions : List (AffinityAction D R)) :
    Run.Always (step F) Exact {} actions ↔ Run.EachStep (step F) CountsOnce {} actions :=
  Run.always_iff_eachStep (I := Inv) (fun _ _ _ h hs => h.step hs)
    (fun _ _ _ h hexact hs => exact_step_iff h hexact hs) inv_start exact_start actions

namespace AffinityDb

/-- A change that arrives is the last one in time; no change arrives during a computation, and no
cycle crashes. -/
def InOrder (db : AffinityDb R) : AffinityAction D R → Prop
  | .arrive c => ∀ c' ∈ db.positionChange, c'.ts < c.ts
  | .cycle c => c.arriving = [] ∧ c.crashes = false

/-- The checkpoint is at the last change that was counted, and the changes are in order. -/
structure Parted (db : AffinityDb R) : Prop where
  lastTs : db.metadata.topicAffinityLastTs = (db.countedChanges.map PositionChange.ts).max?
  inOrder : db.positionChange.Pairwise fun c c' => c.ts < c'.ts

variable {F : AffinityFormula D R} {db db' : AffinityDb R} {action : AffinityAction D R}

/-- The checkpoint of a cycle parts the changes. -/
theorem Parted.countsOnce (h : db.Parted) : db.CountsOnce action := by
  cases action with
  | arrive c => trivial
  | cycle c =>
    intro since hsince a _ t
    have hlast : db.metadata.topicAffinityLastTs = some since := by
      unfold AffinityMetadata.since at hsince
      split at hsince
      · exact absurd hsince (Option.not_mem_none _)
      · exact hsince
    obtain ⟨hmem, hle⟩ := List.max?_eq_some_iff.mp (h.lastTs.symm.trans hlast)
    refine tally_eq_of_parts (fun c hc => hle _ (List.mem_map_of_mem hc)) (fun c hc => ?_) _
    obtain ⟨last, hcounted, rfl⟩ := List.mem_map.mp hmem
    have hpairwise := h.inOrder
    rw [← List.take_append_drop db.counted db.positionChange] at hpairwise
    exact (List.pairwise_append.mp hpairwise).2.2 last hcounted c hc

/-- The last of all changes, where the changes after the last one counted are looked at. -/
theorem max?_of_filtered {changes counted : List PositionChange} {since : Option ℤ}
    {lastTs : Option ℤ} (hsub : counted ⊆ changes)
    (hlast : lastTs = (counted.map PositionChange.ts).max?)
    (hsince : since = none ∨ since = lastTs) :
    ((filtered since changes).map PositionChange.ts).max?.or lastTs
      = (changes.map PositionChange.ts).max? := by
  cases since with
  | none =>
    show (changes.map PositionChange.ts).max?.or lastTs = _
    cases hmax : (changes.map PositionChange.ts).max? with
    | none =>
      rw [List.max?_eq_none_iff, List.map_eq_nil_iff] at hmax
      subst hmax
      rw [hlast, List.subset_nil.mp hsub]
      rfl
    | some m => rfl
  | some since =>
    have hsome : lastTs = some since := (hsince.resolve_left (Option.some_ne_none since)).symm
    obtain ⟨hmem, -⟩ := List.max?_eq_some_iff.mp (hlast.symm.trans hsome)
    rw [hsome]
    symm
    cases hmax : ((filtered (some since) changes).map PositionChange.ts).max? with
    | none =>
      rw [List.max?_eq_none_iff, List.map_eq_nil_iff] at hmax
      refine List.max?_eq_some_iff.mpr ⟨List.map_subset _ hsub hmem, fun ts hts => ?_⟩
      obtain ⟨c, hc, rfl⟩ := List.mem_map.mp hts
      exact not_lt.mp fun hlt => List.filter_eq_nil_iff.mp hmax c hc (decide_eq_true hlt)
    | some m =>
      obtain ⟨hm, hle⟩ := List.max?_eq_some_iff.mp hmax
      refine List.max?_eq_some_iff.mpr ⟨List.map_subset _ filtered_subset hm, fun ts hts => ?_⟩
      obtain ⟨c, hc, rfl⟩ := List.mem_map.mp hts
      by_cases hlt : since < c.ts
      · exact hle c.ts (List.mem_map_of_mem (List.mem_filter.mpr ⟨hc, decide_eq_true hlt⟩))
      · -- a change before the checkpoint is before the changes after it
        obtain ⟨c', hc', rfl⟩ := List.mem_map.mp hm
        have hlt' : since < c'.ts := of_decide_eq_true (List.mem_filter.mp hc').2
        exact (not_lt.mp hlt).trans hlt'.le

theorem Parted.step (h : db.Parted) (hinv : db.Inv) (hsafe : db.InOrder action)
    (hstep : AffinityDb.step F db action = some db') : db'.Parted := by
  cases action with
  | arrive c =>
    obtain rfl := Option.some.inj hstep
    refine ⟨?_, ?_⟩
    · rw [countedChanges_arrive hinv.counted_le]
      exact h.lastTs
    · show (insertPositionChange db.positionChange c).Pairwise _
      unfold insertPositionChange
      split
      · exact h.inOrder
      · exact List.pairwise_append.mpr ⟨h.inOrder, List.pairwise_singleton _ _,
          fun c' hc' _ hmem => List.mem_singleton.mp hmem ▸ hsafe c' hc'⟩
  | cycle c =>
    obtain rfl := Option.some.inj hstep
    obtain ⟨harriving, hcrashes⟩ := hsafe
    have hafter : c.after db.positionChange = db.positionChange := by
      unfold AffinityRun.after
      rw [harriving]
      rfl
    refine ⟨?_, ?_⟩
    · rw [countedChanges_cycle]
      unfold cycle computeTopicAffinity
      dsimp only
      rw [hafter, hcrashes]
      refine max?_of_filtered countedChanges_subset h.lastTs ?_
      unfold AffinityMetadata.since
      split
      · exact .inl rfl
      · exact .inr rfl
    · show (c.after db.positionChange).Pairwise _
      rw [hafter]
      exact h.inOrder

end AffinityDb

/-- **Without crashes, and if changes arrive in their order and between the computations**, the
stored amounts are always those of the changes that were found. -/
theorem exact_of_inOrder {F : AffinityFormula D R} {actions : List (AffinityAction D R)}
    (h : Run.EachStep (step F) InOrder {} actions) : Run.Always (step F) Exact {} actions := by
  refine h.always (I := fun db => db.Inv ∧ db.Exact ∧ db.Parted) ?_ (fun _ hI => hI.2.1)
    ⟨inv_start, exact_start, rfl, List.Pairwise.nil⟩
  intro db action db' ⟨hinv, hexact, hparted⟩ hsafe hs
  exact ⟨hinv.step hs, (exact_step_iff hinv hexact hs).mpr hparted.countsOnce,
    hparted.step hinv hsafe hs⟩

end Runs

/-! ## Changes that are miscounted -/

instance : LinearOrder AffinityKey :=
  LinearOrder.lift' (fun k => toLex (k.accountId, k.termId)) fun k k' h => by
    cases k
    cases k'
    simpa using h

/-- Logarithms to base two, rounded down, in place of those of the database. -/
def logTwo : AffinityFormula ℕ ℕ where
  score count total recent :=
    Nat.log2 (1 + count) * Nat.log2 (1 + total.floor.toNat) * if recent then 2 else 1
  real := id

/-- A deposit of one account in one term. -/
def depositAt (eventId : String) (ts : ℤ) : PositionChange where
  eventId := eventId
  ts := ts
  row :=
    { accountId := "0xa", termId := "0x1", curveId := "1", eventType := "deposited"
      sharesDelta := 1, assetsIn := 1, assetsOut := 0, executionPrice := 1, blockNumber := 1
      transactionHash := "0xf" }

/-- A cycle on the day of all of these deposits. -/
def affinityCycle (arriving : List PositionChange) (crashes : Bool) : AffinityAction ℕ ℕ :=
  .cycle
    { now := 300, arriving := arriving, upsertOrder := RowNumbers.byKey
      pruneOrder := RowNumbers.byKey, today := 0, todayAfter := 0, crashes := crashes }

/-- A cycle crashes before it saves its checkpoint, and the next one completes. -/
def crashBeforeSave : List (AffinityAction ℕ ℕ) :=
  [.arrive (depositAt "e1" 100), affinityCycle [] false, .arrive (depositAt "e2" 200),
    affinityCycle [] true, affinityCycle [] false]

/-- A change arrives that has the time of the checkpoint. -/
def sameTime : List (AffinityAction ℕ ℕ) :=
  [.arrive (depositAt "e1" 100), affinityCycle [] false, .arrive (depositAt "e2" 100),
    affinityCycle [] false]

/-- A change arrives after the upsert of a computation and before it reads the last time. -/
def arrivalWithin : List (AffinityAction ℕ ℕ) :=
  [.arrive (depositAt "e1" 100), affinityCycle [depositAt "e2" 200] false,
    affinityCycle [] false]

open AffinityDb

/-- A schedule that leads to other amounts for a pair. -/
theorem exists_not_exact {D R : Type} [LinearOrder D] [LinearOrder R] {F : AffinityFormula D R}
    {actions : List (AffinityAction D R)} {k : AffinityKey}
    (h : (Run.follow (step F) {} actions).any (fun db => FewTerms db.countedChanges k.accountId ∧
      storedAmounts db.userTopicAffinity k ≠ tally db.countedChanges k) = true) :
    ∃ db, Run.follow (step F) {} actions = some db ∧ ¬ db.Exact := by
  obtain ⟨db, hfollow, hmiscounts⟩ := (Option.any_eq_true _ _).mp h
  obtain ⟨hfew, hne⟩ := of_decide_eq_true hmiscounts
  exact ⟨db, hfollow, fun hexact => hne (hexact k.accountId hfew k.termId)⟩

/-- **Changes are counted twice, or not at all**, after a cycle that completed. -/
theorem crashes_and_arrivals_miscount :
    (∃ db, Run.follow (step logTwo) {} crashBeforeSave = some db ∧ ¬ db.Exact)
      ∧ (∃ db, Run.follow (step logTwo) {} sameTime = some db ∧ ¬ db.Exact)
      ∧ ∃ db, Run.follow (step logTwo) {} arrivalWithin = some db ∧ ¬ db.Exact :=
  ⟨exists_not_exact (k := ⟨"0xa", "0x1"⟩) (by decide +kernel),
    exists_not_exact (k := ⟨"0xa", "0x1"⟩) (by decide +kernel),
    exists_not_exact (k := ⟨"0xa", "0x1"⟩) (by decide +kernel)⟩

end UserActivityRepo
