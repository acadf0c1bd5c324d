import IntuitionCore.Library.Ntile
import Mathlib.Algebra.Order.Ring.Rat

/-!
# Scores of recency, frequency and monetary value

The accounts whose profile was recomputed in the last 30 days are active. Each of them is
scored from one to five in three ways: by how many days ago its profile was recomputed, by
how often it acted, and by how much it moved. A score is the tile of the account in a window
over all active accounts, and five is the best.

A tile grows with the rank. For the second and the third way this is right, since more is
better. The fewest days are the best, but the window has them first, and gives them the
lowest score. So the scores are right exactly if there is nothing to tell apart by recency.

Times are in microseconds. A query that counts the active accounts and the update after it
run at one time here.
-/

namespace UserActivityRepo

/-- What the queries read and write of a profile. -/
structure RfmProfile where
  accountId : String
  deposits30d : ℕ := 0
  redemptions30d : ℕ := 0
  atomsCreated30d : ℕ := 0
  triplesCreated30d : ℕ := 0
  depositVolume30d : ℚ := 0
  redemptionVolume30d : ℚ := 0
  lastRecomputedAt : Option ℤ
  rfmRecencyScore : Option ℕ := none
  rfmFrequencyScore : Option ℕ := none
  rfmMonetaryScore : Option ℕ := none
  deriving DecidableEq, Repr

/-- The table of profiles, under its primary key. -/
structure RfmProfiles where
  rows : List RfmProfile
  nodup : (rows.map RfmProfile.accountId).Nodup

/-- The active accounts from which on tiles are used. -/
def rfmMinPopulation : ℕ := 50

/-- A day in microseconds. -/
def microsPerDay : ℤ := 86_400_000_000

namespace RfmProfile

/-- Whether a profile was recomputed in the last 30 days. -/
def isActive (now : ℤ) (p : RfmProfile) : Bool :=
  p.lastRecomputedAt.any fun t => now - 30 * microsPerDay < t

/-- The whole days since a profile was recomputed. -/
def recencyDays (now : ℤ) (p : RfmProfile) : ℤ :=
  (now - p.lastRecomputedAt.getD now).tdiv microsPerDay

def frequency30d (p : RfmProfile) : ℕ :=
  p.deposits30d + p.redemptions30d + p.atomsCreated30d + p.triplesCreated30d

/-- `logVolume` is the logarithm that the query takes of a volume, in floating point. -/
def monetaryLog {ω : Type} (logVolume : ℚ → ω) (p : RfmProfile) : ω :=
  logVolume (p.depositVolume30d + p.redemptionVolume30d)

end RfmProfile

/-- The active accounts. -/
def activeAccounts (now : ℤ) (profiles : RfmProfiles) : List RfmProfile :=
  profiles.rows.filter (RfmProfile.isActive now)

section Scores

variable {ω : Type} [LinearOrder ω] (logVolume : ℚ → ω) (now : ℤ) (profiles : RfmProfiles)

/-- The three windows over the active accounts. -/
structure RfmWindows where
  recency : WindowOrder (activeAccounts now profiles) (RfmProfile.recencyDays now)
  frequency : WindowOrder (activeAccounts now profiles) RfmProfile.frequency30d
  monetary : WindowOrder (activeAccounts now profiles) (RfmProfile.monetaryLog logVolume)

variable {profiles} {logVolume}

/-- The scores of an account by its tiles; there are none if it is not active. -/
def scored (w : RfmWindows logVolume now profiles) (p : RfmProfile) : RfmProfile :=
  if p.isActive now then
    { p with
      rfmRecencyScore := some (w.recency.tile 5 p)
      rfmFrequencyScore := some (w.frequency.tile 5 p)
      rfmMonetaryScore := some (w.monetary.tile 5 p) }
  else { p with rfmRecencyScore := none, rfmFrequencyScore := none, rfmMonetaryScore := none }

/-- The scores of an account where there are too few for tiles. -/
def neutral (p : RfmProfile) : RfmProfile :=
  let score := if p.isActive now then some 3 else none
  { p with rfmRecencyScore := score, rfmFrequencyScore := score, rfmMonetaryScore := score }

/-- What the update does to a row. -/
def updateScores (w : RfmWindows logVolume now profiles) (p : RfmProfile) : RfmProfile :=
  if (activeAccounts now profiles).length < rfmMinPopulation then neutral now p else scored now w p

/-- An update changes the scores only. -/
theorem updateScores_eq (w : RfmWindows logVolume now profiles) (p : RfmProfile) :
    ∃ r f m, updateScores now w p
      = { p with rfmRecencyScore := r, rfmFrequencyScore := f, rfmMonetaryScore := m } := by
  unfold updateScores scored neutral
  split
  · exact ⟨_, _, _, rfl⟩
  · split <;> exact ⟨_, _, _, rfl⟩

@[simp] theorem accountId_updateScores (w : RfmWindows logVolume now profiles) (p : RfmProfile) :
    (updateScores now w p).accountId = p.accountId := by
  obtain ⟨r, f, m, h⟩ := updateScores_eq now w p
  rw [h]

variable (profiles)

/-- Score all accounts. -/
def computeRfmScores (w : RfmWindows logVolume now profiles) : RfmProfiles where
  rows := profiles.rows.map (updateScores now w)
  nodup := by
    have hid : RfmProfile.accountId ∘ updateScores now w = RfmProfile.accountId :=
      funext fun p => accountId_updateScores now w p
    rw [List.map_map, hid]
    exact profiles.nodup

/-- Score some accounts, in windows over all. -/
def computeRfmScoresForAccounts (w : RfmWindows logVolume now profiles)
    (accountIds : List String) : RfmProfiles where
  rows := profiles.rows.map fun p =>
    if accountIds.contains p.accountId then updateScores now w p else p
  nodup := by
    have hid : (RfmProfile.accountId ∘ fun p =>
        if accountIds.contains p.accountId then updateScores now w p else p)
        = RfmProfile.accountId := funext fun p => by
      show RfmProfile.accountId (if accountIds.contains p.accountId then _ else p) = _
      split
      · exact accountId_updateScores now w p
      · rfl
    rw [List.map_map, hid]
    exact profiles.nodup

end Scores

/-! ## The right order -/

/-- No score of the first is smaller than that of the second. -/
def NotSmaller (s t : Option ℕ) : Prop := ∀ x ∈ s, ∀ y ∈ t, y ≤ x

/-- **Scores are ordered the right way**: they are from one to five, and an account that is
more recent, more frequent, or higher in monetary value than another has no smaller score
for it. -/
structure RankedRightly {ω : Type} [LinearOrder ω] (logVolume : ℚ → ω) (now : ℤ)
    (rows : List RfmProfile) : Prop where
  range : ∀ a ∈ rows, ∀ score ∈ [a.rfmRecencyScore, a.rfmFrequencyScore, a.rfmMonetaryScore],
    ∃ s, score = some s ∧ 1 ≤ s ∧ s ≤ 5
  recency : ∀ a ∈ rows, ∀ b ∈ rows, a.recencyDays now < b.recencyDays now →
    NotSmaller a.rfmRecencyScore b.rfmRecencyScore
  frequency : ∀ a ∈ rows, ∀ b ∈ rows, b.frequency30d < a.frequency30d →
    NotSmaller a.rfmFrequencyScore b.rfmFrequencyScore
  monetary : ∀ a ∈ rows, ∀ b ∈ rows, b.monetaryLog logVolume < a.monetaryLog logVolume →
    NotSmaller a.rfmMonetaryScore b.rfmMonetaryScore

section Ranking

variable {ω : Type} [LinearOrder ω] {logVolume : ℚ → ω} {now : ℤ} {profiles : RfmProfiles}
  (w : RfmWindows logVolume now profiles) {a b : RfmProfile}

/-- The scores of active accounts in a population that is large enough. -/
theorem updateScores_of_active (hsize : rfmMinPopulation ≤ (activeAccounts now profiles).length)
    (ha : a ∈ activeAccounts now profiles) :
    updateScores now w a = { a with
      rfmRecencyScore := some (w.recency.tile 5 a)
      rfmFrequencyScore := some (w.frequency.tile 5 a)
      rfmMonetaryScore := some (w.monetary.tile 5 a) } := by
  unfold updateScores scored
  rw [if_neg (Nat.not_lt.mpr hsize), if_pos (List.mem_filter.mp ha).2]

/-- **Whatever rows of active accounts are updated, they are ranked rightly exactly if no
account among them is more recent and in a lower tile than another.** -/
theorem rankedRightly_iff (hsize : rfmMinPopulation ≤ (activeAccounts now profiles).length)
    {rows : List RfmProfile} (hrows : ∀ a ∈ rows, a ∈ activeAccounts now profiles) :
    RankedRightly logVolume now (rows.map (updateScores now w))
      ↔ ∀ a ∈ rows, ∀ b ∈ rows, a.recencyDays now < b.recencyDays now →
        w.recency.tile 5 b ≤ w.recency.tile 5 a := by
  have hupdate : ∀ a ∈ rows, updateScores now w a = { a with
      rfmRecencyScore := some (w.recency.tile 5 a)
      rfmFrequencyScore := some (w.frequency.tile 5 a)
      rfmMonetaryScore := some (w.monetary.tile 5 a) } := fun a ha =>
    updateScores_of_active w hsize (hrows a ha)
  have hlower : ∀ x y : ℕ, NotSmaller (some x) (some y) ↔ y ≤ x := fun x y => by
    simp [NotSmaller]
  constructor
  · intro h a ha b hb hlt
    have hranked := h.recency _ (List.mem_map_of_mem ha) _ (List.mem_map_of_mem hb)
    rw [hupdate a ha, hupdate b hb] at hranked
    exact (hlower _ _).mp (hranked hlt)
  · intro hrecency
    refine ⟨?_, ?_, ?_, ?_⟩
    · intro a' ha'
      obtain ⟨a, ha, rfl⟩ := List.mem_map.mp ha'
      rw [hupdate a ha]
      have hmem := hrows a ha
      simp only [List.forall_mem_cons, List.not_mem_nil, false_implies, implies_true, and_true]
      exact ⟨⟨_, rfl, w.recency.tile_pos, w.recency.tile_le (by decide) hmem⟩,
        ⟨_, rfl, w.frequency.tile_pos, w.frequency.tile_le (by decide) hmem⟩,
        ⟨_, rfl, w.monetary.tile_pos, w.monetary.tile_le (by decide) hmem⟩⟩
    · intro a' ha' b' hb'
      obtain ⟨a, ha, rfl⟩ := List.mem_map.mp ha'
      obtain ⟨b, hb, rfl⟩ := List.mem_map.mp hb'
      rw [hupdate a ha, hupdate b hb]
      exact fun hlt => (hlower _ _).mpr (hrecency a ha b hb hlt)
    · intro a' ha' b' hb'
      obtain ⟨a, ha, rfl⟩ := List.mem_map.mp ha'
      obtain ⟨b, hb, rfl⟩ := List.mem_map.mp hb'
      rw [hupdate a ha, hupdate b hb]
      exact fun hlt => (hlower _ _).mpr (w.frequency.tile_le_tile (hrows b hb) (hrows a ha) hlt)
    · intro a' ha' b' hb'
      obtain ⟨a, ha, rfl⟩ := List.mem_map.mp ha'
      obtain ⟨b, hb, rfl⟩ := List.mem_map.mp hb'
      rw [hupdate a ha, hupdate b hb]
      exact fun hlt => (hlower _ _).mpr (w.monetary.tile_le_tile (hrows b hb) (hrows a ha) hlt)

/-- An update leaves it alone whether an account is active. -/
theorem isActive_updateScores (p : RfmProfile) :
    (updateScores now w p).isActive now = p.isActive now := by
  obtain ⟨r, f, m, h⟩ := updateScores_eq now w p
  rw [h]
  rfl

/-- The active accounts after an update of all. -/
theorem activeAccounts_computeRfmScores :
    activeAccounts now (computeRfmScores now profiles w)
      = (activeAccounts now profiles).map (updateScores now w) := by
  unfold activeAccounts computeRfmScores
  rw [List.filter_map]
  exact congrArg _ (List.filter_congr fun p _ => isActive_updateScores w p)

/-- The active accounts among those that an update is for. -/
theorem activeAccounts_computeRfmScoresForAccounts (accountIds : List String) :
    (activeAccounts now (computeRfmScoresForAccounts now profiles w accountIds)).filter
        (fun p => accountIds.contains p.accountId)
      = ((activeAccounts now profiles).filter fun p => accountIds.contains p.accountId).map
          (updateScores now w) := by
  have hrows : ∀ rows : List RfmProfile,
      (rows.map fun p => if accountIds.contains p.accountId then updateScores now w p else p).filter
          (fun p => accountIds.contains p.accountId && p.isActive now)
        = (rows.filter fun p => accountIds.contains p.accountId && p.isActive now).map
            (updateScores now w) := fun rows => by
    induction rows with
    | nil => rfl
    | cons p rows ih =>
      rw [List.map_cons, List.filter_cons, List.filter_cons, ih]
      by_cases hmem : accountIds.contains p.accountId = true
      · rw [if_pos hmem, accountId_updateScores, isActive_updateScores]
        split <;> rfl
      · have hnot : ¬ (accountIds.contains p.accountId && p.isActive now) = true := fun h =>
          hmem (Bool.and_eq_true_iff.mp h).1
        rw [if_neg hmem, if_neg hnot, if_neg hnot]
  unfold activeAccounts computeRfmScoresForAccounts
  rw [List.filter_filter, List.filter_filter]
  exact hrows profiles.rows

/-- Scores of all accounts that are ordered the right way tell nothing apart by recency. -/
theorem recencyDays_eq_of_rankedRightly
    (hsize : rfmMinPopulation ≤ (activeAccounts now profiles).length)
    (h : RankedRightly logVolume now (activeAccounts now (computeRfmScores now profiles w))) :
    ∀ a ∈ activeAccounts now profiles, ∀ b ∈ activeAccounts now profiles,
      a.recencyDays now = b.recencyDays now := by
  rw [activeAccounts_computeRfmScores, rankedRightly_iff w hsize fun a ha => ha] at h
  have hnodup : (activeAccounts now profiles).Nodup := profiles.nodup.of_map.filter _
  have hfive : 5 ≤ (activeAccounts now profiles).length := Nat.le_trans (by decide) hsize
  -- the first of the window are in the first tile, and the last in the last
  obtain ⟨first, hfirst, last, hlast, htile, htile', hbetween⟩ :=
    w.recency.exists_first_last (k := 5) (by decide) hfive hnodup
  have heq : first.recencyDays now = last.recencyDays now := by
    refine le_antisymm (hbetween last hlast).1 (not_lt.mp fun hlt => ?_)
    have hle := h first hfirst last hlast hlt
    omega
  have hsame : ∀ a ∈ activeAccounts now profiles, a.recencyDays now = first.recencyDays now :=
    fun a ha => le_antisymm (heq ▸ (hbetween a ha).2) (hbetween a ha).1
  exact fun a ha b hb => (hsame a ha).trans (hsame b hb).symm

end Ranking

/-- **The scores are ordered the right way exactly if nothing can be told apart by
recency**: all active accounts were recomputed the same number of days ago. -/
theorem rfm_scores_ranked_iff {ω : Type} [LinearOrder ω] (logVolume : ℚ → ω) (now : ℤ)
    (profiles : RfmProfiles) (w : RfmWindows logVolume now profiles)
    (hsize : rfmMinPopulation ≤ (activeAccounts now profiles).length) :
    (RankedRightly logVolume now (activeAccounts now (computeRfmScores now profiles w))
      ∧ ∀ (w' : RfmWindows logVolume now profiles) (accountIds : List String),
        RankedRightly logVolume now
          ((activeAccounts now (computeRfmScoresForAccounts now profiles w' accountIds)).filter
            fun p => accountIds.contains p.accountId))
    ↔ ∀ a ∈ activeAccounts now profiles, ∀ b ∈ activeAccounts now profiles,
        a.recencyDays now = b.recencyDays now := by
  refine ⟨fun h => recencyDays_eq_of_rankedRightly w hsize h.1, fun hsame => ?_⟩
  have hnone : ∀ (v : RfmWindows logVolume now profiles),
      ∀ a ∈ activeAccounts now profiles, ∀ b ∈ activeAccounts now profiles,
        a.recencyDays now < b.recencyDays now → v.recency.tile 5 b ≤ v.recency.tile 5 a :=
    fun v a ha b hb hlt => absurd (hsame a ha b hb) hlt.ne
  constructor
  · rw [activeAccounts_computeRfmScores, rankedRightly_iff w hsize fun a ha => ha]
    exact hnone w
  · intro w' accountIds
    rw [activeAccounts_computeRfmScoresForAccounts, rankedRightly_iff w' hsize
      fun a ha => List.mem_of_mem_filter ha]
    exact fun a ha b hb => hnone w' a (List.mem_of_mem_filter ha) b (List.mem_of_mem_filter hb)

/-! ## Fifty accounts -/

/-- Fifty accounts, of which the first was recomputed now and the others some days ago. -/
def fiftyAccounts (days : ℤ) : RfmProfiles where
  rows := (List.range rfmMinPopulation).map fun i =>
    { accountId := .ofList (List.replicate i 'a')
      lastRecomputedAt := some (if i = 0 then 0 else -days * microsPerDay) }
  nodup := by
    rw [List.map_map]
    refine List.Nodup.map (fun i j h => ?_) List.nodup_range
    have hlist := congrArg (fun s : String => s.toList.length) h
    simpa using hlist

/-- Windows in the order of the table, where ranks are equal. -/
def tableOrder {ω : Type} [LinearOrder ω] (logVolume : ℚ → ω) (now : ℤ) (profiles : RfmProfiles) :
    RfmWindows logVolume now profiles where
  recency := .mergeSort _ _
  frequency := .mergeSort _ _
  monetary := .mergeSort _ _

theorem rfm_scores_ranked_iff_fiftyAccounts :
    (RankedRightly id 0 (activeAccounts 0
        (computeRfmScores 0 (fiftyAccounts 0) (tableOrder (ω := ℚ) id 0 (fiftyAccounts 0))))
      ∧ ∀ (w' : RfmWindows (ω := ℚ) id 0 (fiftyAccounts 0)) (accountIds : List String),
        RankedRightly id 0 ((activeAccounts 0
          (computeRfmScoresForAccounts 0 (fiftyAccounts 0) w' accountIds)).filter
            fun p => accountIds.contains p.accountId))
    ↔ ∀ a ∈ activeAccounts 0 (fiftyAccounts 0), ∀ b ∈ activeAccounts 0 (fiftyAccounts 0),
        a.recencyDays 0 = b.recencyDays 0 :=
  rfm_scores_ranked_iff id 0 (fiftyAccounts 0) (tableOrder id 0 (fiftyAccounts 0))
    (by decide +kernel)

/-- **The most recent account has a smaller score than another**: it was recomputed now, and
is in the first tile. -/
theorem fiftyAccounts_not_ranked :
    ¬ ∀ (now : ℤ) (profiles : RfmProfiles) (w : RfmWindows (ω := ℚ) id now profiles),
      rfmMinPopulation ≤ (activeAccounts now profiles).length →
        RankedRightly id now (activeAccounts now (computeRfmScores now profiles w)) := by
  intro h
  have hsize : rfmMinPopulation ≤ (activeAccounts 0 (fiftyAccounts 1)).length := by decide +kernel
  have hsame := recencyDays_eq_of_rankedRightly _ hsize
    (h 0 (fiftyAccounts 1) (tableOrder id 0 (fiftyAccounts 1)) hsize)
  have hdiffer : ∃ a ∈ activeAccounts 0 (fiftyAccounts 1),
      ∃ b ∈ activeAccounts 0 (fiftyAccounts 1), a.recencyDays 0 ≠ b.recencyDays 0 := by
    decide +kernel
  obtain ⟨a, ha, b, hb, hne⟩ := hdiffer
  exact hne (hsame a ha b hb)

end UserActivityRepo
