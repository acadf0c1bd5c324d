import IntuitionCore.Library.Run
import IntuitionCore.Library.Table
import Mathlib.Algebra.BigOperators.Group.Finset.Basic
import Mathlib.Algebra.BigOperators.Group.Finset.Piecewise
import Mathlib.Algebra.BigOperators.Group.Multiset.Basic
import Mathlib.Data.Finset.Max

/-!
# Running totals that are kept up

Changes belong to owners and fall into buckets of time. What the changes of one
owner in one bucket add up to is a delta, and the sum of the deltas of an owner
up to a bucket is a running total. A table of running totals has a row for every
owner and bucket with changes.

A full pass computes the table from the deltas. An incremental pass goes on from
the table there is: it takes the deltas after the last bucket of the table, its
watermark, and adds them up on top of the last total of their owner. It never
looks at a bucket again that is not after the watermark. A change that comes
later than that is late: it is in the deltas, and in no total. So the totals are
right as long as the late changes of an owner up to a bucket that has a row add
up to nothing.
-/

variable {ι π β M : Type}

/-- How changes are grouped and added up. -/
structure Bucketing (ι π β M : Type) where
  owner : ι → π
  bucket : ι → β
  amount : ι → M

namespace RunningTotals

variable [DecidableEq π] [LinearOrder β] [AddCommGroup M] (B : Bucketing ι π β M)

/-! ## The passes -/

/-- The greatest of some buckets. -/
def lastBucket (s : Finset β) : Option β :=
  if h : s.Nonempty then some (s.max' h) else none

/-- What the changes of each owner and bucket add up to. -/
def grouped (changes : Multiset ι) : Table (π × β) M :=
  Table.tabulate (changes.map fun c => (B.owner c, B.bucket c)).toFinset fun k =>
    ((changes.filter fun c => (B.owner c, B.bucket c) = k).map B.amount).sum

/-- The sum of the deltas of an owner up to a bucket. -/
def windowSum (deltas : Table (π × β) M) (p : π) (b : β) : M :=
  ∑ k ∈ deltas.keys with k.1 = p ∧ k.2 ≤ b, (deltas.lookup k).getD 0

/-- Compute the totals from the deltas. -/
def fullPass (deltas : Table (π × β) M) : Table (π × β) M :=
  Table.tabulate deltas.keys fun k => windowSum deltas k.1 k.2

/-- The last bucket that has a total. -/
def watermark (totals : Table (π × β) M) : Option β :=
  lastBucket (totals.keys.image Prod.snd)

/-- The deltas after a bucket. -/
def newDeltas (deltas : Table (π × β) M) (w : β) : Table (π × β) M :=
  Table.tabulate (deltas.keys.filter fun k => w < k.2) fun k => (deltas.lookup k).getD 0

/-- The last total of an owner, or zero. -/
def prior (totals : Table (π × β) M) (p : π) : M :=
  match lastBucket ((totals.keys.filter fun k => k.1 = p).image Prod.snd) with
  | none => 0
  | some b => (totals.lookup (p, b)).getD 0

/-- Go on from the totals there are. -/
def incrementalPass (deltas totals : Table (π × β) M) : Table (π × β) M :=
  match watermark totals with
  | none => totals
  | some w =>
    Table.tabulate (newDeltas deltas w).keys
      (fun k => prior totals k.1 + windowSum (newDeltas deltas w) k.1 k.2) ∪ totals

/-! ## What deltas add up to -/

/-- What the changes of an owner up to a bucket add up to. -/
def sumUpTo (changes : Multiset ι) (p : π) (b : β) : M :=
  ((changes.filter fun c => B.owner c = p ∧ B.bucket c ≤ b).map B.amount).sum

variable {B} {changes changes' : Multiset ι} {deltas totals : Table (π × β) M} {p : π} {b w : β}

theorem lastBucket_eq_none {s : Finset β} : lastBucket s = none ↔ s = ∅ := by
  unfold lastBucket
  by_cases h : s.Nonempty
  · simp [h, h.ne_empty]
  · simp [Finset.not_nonempty_iff_eq_empty.mp h]

theorem lastBucket_eq_some {s : Finset β} (h : lastBucket s = some b) :
    b ∈ s ∧ ∀ x ∈ s, x ≤ b := by
  unfold lastBucket at h
  by_cases hs : s.Nonempty
  · rw [dif_pos hs] at h
    obtain rfl := Option.some.inj h
    exact ⟨s.max'_mem hs, fun x hx => s.le_max' x hx⟩
  · rw [dif_neg hs] at h
    cases h

theorem mem_grouped {k : π × β} :
    k ∈ grouped B changes ↔ ∃ c ∈ changes, (B.owner c, B.bucket c) = k := by
  rw [grouped, Table.mem_tabulate, Multiset.mem_toFinset, Multiset.mem_map]

theorem sumUpTo_add : sumUpTo B (changes + changes') p b
    = sumUpTo B changes p b + sumUpTo B changes' p b := by
  unfold sumUpTo
  rw [Multiset.filter_add, Multiset.map_add, Multiset.sum_add]

theorem sumUpTo_eq_zero (h : ∀ c ∈ changes, B.owner c = p → ¬ B.bucket c ≤ b) :
    sumUpTo B changes p b = 0 := by
  unfold sumUpTo
  rw [Multiset.filter_eq_nil.mpr fun c hc hp => h c hc hp.1 hp.2]
  rfl

/-- Changes add up to the same up to two buckets between which there are none. -/
theorem sumUpTo_congr {b' : β}
    (h : ∀ c ∈ changes, B.owner c = p → (B.bucket c ≤ b ↔ B.bucket c ≤ b')) :
    sumUpTo B changes p b = sumUpTo B changes p b' := by
  unfold sumUpTo
  rw [Multiset.filter_congr fun c hc => and_congr_right fun hp => h c hc hp]

omit [DecidableEq π] [LinearOrder β] in
/-- Adding up group by group is adding up. -/
theorem sum_groups {γ : Type} [DecidableEq γ] (key : ι → γ) (amount : ι → M) (s : Finset γ)
    (changes : Multiset ι) :
    ∑ k ∈ s, ((changes.filter fun c => key c = k).map amount).sum
      = ((changes.filter fun c => key c ∈ s).map amount).sum := by
  induction changes using Multiset.induction_on with
  | empty => simp
  | cons c changes ih =>
    have hcons : ∀ k, (((c ::ₘ changes).filter fun c => key c = k).map amount).sum
        = (if key c = k then amount c else 0)
          + ((changes.filter fun c => key c = k).map amount).sum := fun k => by
      by_cases hk : key c = k <;> simp [hk]
    simp only [hcons]
    rw [Finset.sum_add_distrib, ih, Finset.sum_ite_eq]
    by_cases hs : key c ∈ s <;> simp [hs]

/-- **The deltas up to a bucket add up to the changes up to it.** -/
theorem windowSum_grouped : windowSum (grouped B changes) p b = sumUpTo B changes p b := by
  have hlook : ∀ k ∈ (grouped B changes).keys, ((grouped B changes).lookup k).getD 0
      = ((changes.filter fun c => (B.owner c, B.bucket c) = k).map B.amount).sum := fun k hk => by
    rw [grouped, Table.lookup_tabulate, if_pos]
    · rfl
    · rwa [Finmap.mem_keys, grouped, Table.mem_tabulate] at hk
  unfold windowSum
  rw [Finset.sum_congr rfl fun k hk => hlook k (Finset.mem_filter.mp hk).1,
    sum_groups (fun c => (B.owner c, B.bucket c))]
  unfold sumUpTo
  congr 2
  refine Multiset.filter_congr fun c hc => ?_
  rw [Finset.mem_filter, Finmap.mem_keys]
  exact and_iff_right (mem_grouped.mpr ⟨c, hc, rfl⟩)

/-- The new deltas are those of the changes after the bucket. -/
theorem newDeltas_grouped (w : β) : newDeltas (grouped B changes) w
    = grouped B (changes.filter fun c => w < B.bucket c) := by
  refine Finmap.ext_lookup fun k => ?_
  rw [newDeltas, Table.lookup_tabulate, grouped, grouped, Table.lookup_tabulate,
    Table.lookup_tabulate]
  by_cases hw : w < k.2
  · -- the changes of a group after the bucket are all of them
    have hgroup : (changes.filter fun c => w < B.bucket c).filter
        (fun c => (B.owner c, B.bucket c) = k)
        = changes.filter fun c => (B.owner c, B.bucket c) = k := by
      rw [Multiset.filter_filter]
      refine Multiset.filter_congr fun c _ => and_iff_left_of_imp fun hc => ?_
      rwa [← hc] at hw
    by_cases hk : ∃ c ∈ changes, (B.owner c, B.bucket c) = k
    · obtain ⟨c, hc, rfl⟩ := hk
      rw [if_pos, if_pos, if_pos, hgroup]
      · rfl
      · exact Multiset.mem_toFinset.mpr (Multiset.mem_map_of_mem
          (fun c => (B.owner c, B.bucket c)) (Multiset.mem_filter.mpr ⟨hc, hw⟩))
      · exact Multiset.mem_toFinset.mpr
          (Multiset.mem_map_of_mem (fun c => (B.owner c, B.bucket c)) hc)
      · exact Finset.mem_filter.mpr ⟨Finmap.mem_keys.mpr (mem_grouped.mpr ⟨c, hc, rfl⟩), hw⟩
    · rw [if_neg, if_neg]
      · rw [Multiset.mem_toFinset, Multiset.mem_map]
        exact fun ⟨c, hc, heq⟩ => hk ⟨c, (Multiset.mem_filter.mp hc).1, heq⟩
      · rw [Finset.mem_filter, Finmap.mem_keys]
        exact fun h => hk (mem_grouped.mp h.1)
  · rw [if_neg, if_neg]
    · rw [Multiset.mem_toFinset, Multiset.mem_map]
      rintro ⟨c, hc, rfl⟩
      exact hw (Multiset.mem_filter.mp hc).2
    · exact fun h => hw (Finset.mem_filter.mp h).2

/-- **A full pass has the sums of the changes.** -/
theorem lookup_fullPass {k : π × β} : (fullPass (grouped B changes)).lookup k
    = if k ∈ grouped B changes then some (sumUpTo B changes k.1 k.2) else none := by
  rw [fullPass, Table.lookup_tabulate, windowSum_grouped]
  simp only [Finmap.mem_keys]

/-- The last total of an owner up to a bucket, if there is one. -/
def snapshot (totals : Table (π × β) M) (p : π) (b : β) : Option M :=
  (lastBucket ((totals.keys.filter fun k => k.1 = p ∧ k.2 ≤ b).image Prod.snd)).bind fun last =>
    totals.lookup (p, last)

/-- **The last total of a full pass up to a bucket is the sum up to it.** There is one
as soon as there are changes. -/
theorem snapshot_fullPass {m : M} : snapshot (fullPass (grouped B changes)) p b = some m
    ↔ (∃ c ∈ changes, B.owner c = p ∧ B.bucket c ≤ b) ∧ sumUpTo B changes p b = m := by
  have hkeys : ∀ k, k ∈ (fullPass (grouped B changes)).keys
      ↔ ∃ c ∈ changes, (B.owner c, B.bucket c) = k := fun k => by
    rw [Finmap.mem_keys, fullPass, Table.mem_tabulate, Finmap.mem_keys, mem_grouped]
  have hmem : ∀ x, x ∈ ((fullPass (grouped B changes)).keys.filter fun k =>
      k.1 = p ∧ k.2 ≤ b).image Prod.snd
      ↔ x ≤ b ∧ ∃ c ∈ changes, (B.owner c, B.bucket c) = (p, x) := fun x => by
    simp only [Finset.mem_image, Finset.mem_filter, hkeys]
    constructor
    · rintro ⟨⟨q, y⟩, ⟨hc, rfl, hy⟩, rfl⟩
      exact ⟨hy, hc⟩
    · rintro ⟨hx, hc⟩
      exact ⟨(p, x), ⟨hc, rfl, hx⟩, rfl⟩
  unfold snapshot
  cases hlast : lastBucket (((fullPass (grouped B changes)).keys.filter fun k =>
      k.1 = p ∧ k.2 ≤ b).image Prod.snd) with
  | none =>
    refine iff_of_false (fun h => by cases h) ?_
    rintro ⟨⟨c, hc, hp, hb⟩, -⟩
    have hin := (hmem (B.bucket c)).mpr ⟨hb, c, hc, by rw [hp]⟩
    rw [lastBucket_eq_none.mp hlast] at hin
    exact absurd hin (Finset.notMem_empty _)
  | some last =>
    obtain ⟨hin, hmax⟩ := lastBucket_eq_some hlast
    obtain ⟨hle, c, hc, hk⟩ := (hmem last).mp hin
    obtain ⟨hp, hb⟩ := Prod.mk.inj hk
    have hsum : sumUpTo B changes p last = sumUpTo B changes p b :=
      sumUpTo_congr fun c' hc' hp' => ⟨fun h => h.trans hle, fun h =>
        hmax _ ((hmem _).mpr ⟨h, c', hc', by rw [hp']⟩)⟩
    show (fullPass (grouped B changes)).lookup (p, last) = some m ↔ _
    rw [lookup_fullPass, if_pos (mem_grouped.mpr ⟨c, hc, hk⟩), Option.some.injEq]
    show sumUpTo B changes p last = m ↔ _
    rw [hsum]
    exact (and_iff_right ⟨c, hc, hp, hb ▸ hle⟩).symm

theorem mem_newKeys {k : π × β} {w : β} : k ∈ (newDeltas (grouped B changes) w).keys
    ↔ w < k.2 ∧ ∃ c ∈ changes, (B.owner c, B.bucket c) = k := by
  rw [Finmap.mem_keys, newDeltas_grouped, mem_grouped]
  constructor
  · rintro ⟨c, hc, rfl⟩
    obtain ⟨hc, hw⟩ := Multiset.mem_filter.mp hc
    exact ⟨hw, c, hc, rfl⟩
  · rintro ⟨hw, c, hc, rfl⟩
    exact ⟨c, Multiset.mem_filter.mpr ⟨hc, hw⟩, rfl⟩

/-- **An incremental pass writes the totals after the watermark**, and leaves the
others. -/
theorem lookup_incrementalPass (hw : watermark totals = some w) (k : π × β) :
    (incrementalPass (grouped B changes) totals).lookup k
      = if k ∈ (newDeltas (grouped B changes) w).keys then
          some (prior totals k.1 + sumUpTo B (changes.filter fun c => w < B.bucket c) k.1 k.2)
        else totals.lookup k := by
  unfold incrementalPass
  rw [hw]
  simp only [Table.lookup_union, Table.lookup_tabulate]
  by_cases hk : k ∈ (newDeltas (grouped B changes) w).keys
  · rw [if_pos hk, if_pos hk, newDeltas_grouped, windowSum_grouped]
    rfl
  · rw [if_neg hk, if_neg hk]
    rfl

theorem incrementalPass_of_none (hw : watermark totals = none) :
    incrementalPass deltas totals = totals := by
  unfold incrementalPass
  rw [hw]

omit [DecidableEq π] [AddCommGroup M] in
/-- No total lies after the watermark. -/
theorem le_watermark (hw : watermark totals = some w) {k : π × β} (hk : k ∈ totals) : k.2 ≤ w :=
  (lastBucket_eq_some hw).2 k.2 (Finset.mem_image_of_mem _ (Finmap.mem_keys.mpr hk))

/-! ## Growing changes -/

variable (B) in
/-- The changes, the totals that are kept of them, and the changes that were
late. Nothing reads the latter. -/
structure Kept (B : Bucketing ι π β M) where
  changes : Multiset ι
  totals : Table (π × β) M
  late : Multiset ι

namespace Kept

variable (B) in
/-- Changes of which the totals are computed from scratch. -/
def ofFullPass (changes : Multiset ι) : Kept B where
  changes := changes
  totals := fullPass (grouped B changes)
  late := 0

/-- The new changes that are not after the watermark. Where there is no
watermark nothing is ever totalled. -/
def lateOf (s : Kept B) (new : Multiset ι) : Multiset ι :=
  match watermark s.totals with
  | none => new
  | some w => new.filter fun c => B.bucket c ≤ w

/-- New changes have come, and the totals are gone on with. -/
def refresh (s : Kept B) (new : Multiset ι) : Kept B where
  changes := s.changes + new
  totals := incrementalPass (grouped B (s.changes + new)) s.totals
  late := s.late + s.lateOf new

/-- **Every total there is is the sum of the deltas up to it**, as a full pass
would have it. -/
def Exact (s : Kept B) : Prop :=
  ∀ k m, s.totals.lookup k = some m → m = windowSum (grouped B s.changes) k.1 k.2

/-- The late changes of each owner add up to nothing up to every bucket that has
a total, or is going to have one. -/
def LateCancel (s : Kept B) (new : Multiset ι) : Prop :=
  ∀ w, watermark s.totals = some w →
    ∀ k : π × β, (k ∈ s.totals ∨ w < k.2 ∧ ∃ c ∈ new, (B.owner c, B.bucket c) = k) →
      sumUpTo B (s.late + s.lateOf new) k.1 k.2 = 0

/-- **A total lacks the late changes, and no others.** -/
structure Sound (s : Kept B) : Prop where
  /-- The changes that were not late have their totals. -/
  counted : ∃ counted, s.changes = counted + s.late
    ∧ ∀ c ∈ counted, (B.owner c, B.bucket c) ∈ s.totals
  /-- A total and the late changes up to it make the sum. -/
  total_add : ∀ k m, s.totals.lookup k = some m →
    m + sumUpTo B s.late k.1 k.2 = sumUpTo B s.changes k.1 k.2
  /-- What was late once is late ever after. -/
  late_le : ∀ w, watermark s.totals = some w → ∀ c ∈ s.late, B.bucket c ≤ w

theorem Sound.ofFullPass (changes : Multiset ι) : (ofFullPass B changes).Sound where
  counted := ⟨changes, (add_zero changes).symm, fun c hc => by
    rw [← Finmap.lookup_isSome]
    show ((fullPass (grouped B changes)).lookup _).isSome = true
    rw [lookup_fullPass, if_pos (mem_grouped.mpr ⟨c, hc, rfl⟩)]
    rfl⟩
  total_add k m hm := by
    have hm : (fullPass (grouped B changes)).lookup k = some m := hm
    rw [lookup_fullPass] at hm
    obtain ⟨-, hm⟩ := Option.ite_none_right_eq_some.mp hm
    rw [← Option.some.inj hm]
    exact add_zero _
  late_le _ _ _ hc := absurd hc (Multiset.notMem_zero _)

/-- **Sound totals are exact where the late changes cancel.** -/
theorem Sound.exact_iff {s : Kept B} (h : s.Sound) :
    s.Exact ↔ ∀ k ∈ s.totals, sumUpTo B s.late k.1 k.2 = 0 := by
  constructor
  · intro hexact k hk
    obtain ⟨m, hm⟩ := Finmap.mem_iff.mp hk
    have hadd := h.total_add k m hm
    have hm' := hexact k m hm
    rw [windowSum_grouped] at hm'
    rw [← hm'] at hadd
    exact left_eq_add.mp hadd.symm
  · intro hcancel k m hm
    have hadd := h.total_add k m hm
    rwa [hcancel k (Finmap.mem_iff.mpr ⟨m, hm⟩), add_zero, ← windowSum_grouped] at hadd

/-- No change lies after the watermark. -/
theorem Sound.bucket_le {s : Kept B} (h : s.Sound) (hw : watermark s.totals = some w) {c : ι}
    (hc : c ∈ s.changes) : B.bucket c ≤ w := by
  obtain ⟨counted, hchanges, hcounted⟩ := h.counted
  rw [hchanges] at hc
  obtain hc | hc := Multiset.mem_add.mp hc
  · exact le_watermark hw (hcounted c hc)
  · exact h.late_le w hw c hc

/-- **The last total of an owner is the sum of its changes that were not late.** -/
theorem Sound.prior_eq {s : Kept B} (h : s.Sound) {counted : Multiset ι}
    (hchanges : s.changes = counted + s.late)
    (hcounted : ∀ c ∈ counted, (B.owner c, B.bucket c) ∈ s.totals)
    (hw : watermark s.totals = some w) (hb : w < b) :
    prior s.totals p = sumUpTo B counted p b := by
  unfold prior
  cases hlast : lastBucket ((s.totals.keys.filter fun k => k.1 = p).image Prod.snd) with
  | none =>
    -- an owner without totals has no such changes
    have hnone := lastBucket_eq_none.mp hlast
    refine (sumUpTo_eq_zero fun c hc hp _ => ?_).symm
    have hmem : B.bucket c ∈ (s.totals.keys.filter fun k => k.1 = p).image Prod.snd :=
      Finset.mem_image.mpr
        ⟨_, Finset.mem_filter.mpr ⟨Finmap.mem_keys.mpr (hcounted c hc), hp⟩, rfl⟩
    rw [hnone] at hmem
    cases hmem
  | some b' =>
    obtain ⟨hmem, hmax⟩ := lastBucket_eq_some hlast
    obtain ⟨⟨p', b''⟩, hfilter, rfl⟩ := Finset.mem_image.mp hmem
    obtain ⟨hkey, hp'⟩ := Finset.mem_filter.mp hfilter
    obtain rfl : p' = p := hp'
    have hk := Finmap.mem_keys.mp hkey
    obtain ⟨m, hm⟩ := Finmap.mem_iff.mp hk
    have hadd := h.total_add _ m hm
    rw [hchanges, sumUpTo_add] at hadd
    simp only [hm, Option.getD_some]
    rw [add_right_cancel hadd]
    refine sumUpTo_congr fun c hc hp => ?_
    -- every such change lies up to the last total, and that up to the watermark
    have hle : B.bucket c ≤ b'' := hmax _ (Finset.mem_image.mpr
      ⟨_, Finset.mem_filter.mpr ⟨Finmap.mem_keys.mpr (hcounted c hc), hp⟩, rfl⟩)
    exact iff_of_true hle ((hle.trans (le_watermark hw hk)).trans hb.le)

/-- A total stays, and there is one for each owner and bucket of the changes
after the watermark. -/
theorem mem_totals_refresh {s : Kept B} (h : s.Sound) {new : Multiset ι}
    (hw : watermark s.totals = some w) (k : π × β) :
    k ∈ (s.refresh new).totals
      ↔ k ∈ s.totals ∨ w < k.2 ∧ ∃ c ∈ new, (B.owner c, B.bucket c) = k := by
  have hnew : k ∈ (newDeltas (grouped B (s.changes + new)) w).keys
      ↔ w < k.2 ∧ ∃ c ∈ new, (B.owner c, B.bucket c) = k := by
    rw [mem_newKeys]
    refine and_congr_right fun hlt => ⟨?_, ?_⟩
    · rintro ⟨c, hc, rfl⟩
      obtain hc | hc := Multiset.mem_add.mp hc
      · -- the changes there were are not after the watermark
        exact absurd (h.bucket_le hw hc) (not_le.mpr hlt)
      · exact ⟨c, hc, rfl⟩
    · rintro ⟨c, hc, rfl⟩
      exact ⟨c, Multiset.mem_add.mpr (.inr hc), rfl⟩
  rw [← Finmap.lookup_isSome, ← Finmap.lookup_isSome]
  show ((incrementalPass (grouped B (s.changes + new)) s.totals).lookup k).isSome = true ↔ _
  rw [lookup_incrementalPass hw, ← hnew]
  by_cases hk : k ∈ (newDeltas (grouped B (s.changes + new)) w).keys <;> simp [hk]

/-- Without a watermark nothing is totalled. -/
theorem totals_refresh_of_none {s : Kept B} (hw : watermark s.totals = none)
    (new : Multiset ι) : (s.refresh new).totals = s.totals :=
  incrementalPass_of_none hw

omit [DecidableEq π] [AddCommGroup M] in
theorem lateOf_of_none {s : Kept B} (hw : watermark s.totals = none) (new : Multiset ι) :
    s.lateOf new = new := by
  unfold lateOf
  rw [hw]

omit [DecidableEq π] [AddCommGroup M] in
theorem lateOf_of_some {s : Kept B} (hw : watermark s.totals = some w) (new : Multiset ι) :
    s.lateOf new = new.filter fun c => B.bucket c ≤ w := by
  unfold lateOf
  rw [hw]

omit [DecidableEq π] [AddCommGroup M] in
/-- What comes is after the watermark or late. -/
theorem filter_add_lateOf {s : Kept B} (hw : watermark s.totals = some w) (new : Multiset ι) :
    new.filter (fun c => w < B.bucket c) + s.lateOf new = new := by
  rw [lateOf_of_some hw, Multiset.filter_congr fun c _ => (not_lt (a := w) (b := B.bucket c)).symm]
  exact Multiset.filter_add_not _ _

/-- A new total is the last one of its owner, and what came after the
watermark. It lacks the late changes. -/
theorem Sound.add_of_new {s : Kept B} (h : s.Sound) (new : Multiset ι)
    (hw : watermark s.totals = some w) {k : π × β} (hk : w < k.2) :
    prior s.totals k.1 + sumUpTo B ((s.changes + new).filter fun c => w < B.bucket c) k.1 k.2
        + sumUpTo B (s.late + s.lateOf new) k.1 k.2
      = sumUpTo B (s.changes + new) k.1 k.2 := by
  obtain ⟨counted, hchanges, hcounted⟩ := h.counted
  have hold : s.changes.filter (fun c => w < B.bucket c) = 0 :=
    Multiset.filter_eq_nil.mpr fun c hc => not_lt.mpr (h.bucket_le hw hc)
  rw [h.prior_eq hchanges hcounted hw hk, Multiset.filter_add, hold, zero_add, ← sumUpTo_add,
    ← sumUpTo_add, add_add_add_comm, filter_add_lateOf hw, ← hchanges]

/-- An old total stays. Of what has come, it lacks what was late, and the rest
lies after it. -/
theorem Sound.add_of_old {s : Kept B} (h : s.Sound) (new : Multiset ι)
    (hw : watermark s.totals = some w) {k : π × β} {m : M} (hm : s.totals.lookup k = some m) :
    m + sumUpTo B (s.late + s.lateOf new) k.1 k.2 = sumUpTo B (s.changes + new) k.1 k.2 := by
  have hle : k.2 ≤ w := le_watermark hw (Finmap.mem_iff.mpr ⟨m, hm⟩)
  have hafter : sumUpTo B (new.filter fun c => w < B.bucket c) k.1 k.2 = 0 :=
    sumUpTo_eq_zero fun c hc _ hck =>
      absurd (Multiset.mem_filter.mp hc).2 (not_lt.mpr (hck.trans hle))
  have hlate : sumUpTo B new k.1 k.2 = sumUpTo B (s.lateOf new) k.1 k.2 := by
    conv_lhs => rw [← filter_add_lateOf hw new, sumUpTo_add, hafter, zero_add]
  rw [sumUpTo_add, sumUpTo_add, hlate, ← add_assoc, h.total_add k m hm]

/-- Without a watermark everything that comes is late. -/
theorem Sound.refresh_of_none {s : Kept B} (h : s.Sound) (hw : watermark s.totals = none)
    (new : Multiset ι) : (s.refresh new).Sound := by
  obtain ⟨counted, hchanges, hcounted⟩ := h.counted
  have htotals := totals_refresh_of_none hw new
  have hlate : (s.refresh new).late = s.late + new :=
    congrArg (s.late + ·) (lateOf_of_none hw new)
  refine ⟨⟨counted, ?_, ?_⟩, fun k m hm => ?_, ?_⟩
  · rw [hlate, ← add_assoc, ← hchanges]
    rfl
  · rw [htotals]
    exact hcounted
  · rw [htotals] at hm
    rw [hlate, sumUpTo_add, ← add_assoc, h.total_add k m hm]
    exact sumUpTo_add.symm
  · rw [htotals, hw]
    exact nofun

/-- **A refresh keeps the totals sound.** -/
theorem Sound.refresh {s : Kept B} (h : s.Sound) (new : Multiset ι) : (s.refresh new).Sound := by
  cases hw : watermark s.totals with
  | none => exact h.refresh_of_none hw new
  | some w =>
    obtain ⟨counted, hchanges, hcounted⟩ := h.counted
    have hmem : ∀ k, k ∈ (s.refresh new).totals
        ↔ k ∈ s.totals ∨ w < k.2 ∧ ∃ c ∈ new, (B.owner c, B.bucket c) = k :=
      mem_totals_refresh h hw
    refine ⟨⟨counted + new.filter fun c => w < B.bucket c, ?_, fun c hc => ?_⟩,
      fun k m hm => ?_, fun w' hw' c hc => ?_⟩
    · show s.changes + new = _ + (s.late + s.lateOf new)
      rw [add_add_add_comm, filter_add_lateOf hw, ← hchanges]
    · refine (hmem _).mpr ?_
      obtain hc | hc := Multiset.mem_add.mp hc
      · exact .inl (hcounted c hc)
      · obtain ⟨hc, hlt⟩ := Multiset.mem_filter.mp hc
        exact .inr ⟨hlt, c, hc, rfl⟩
    · have hm : (incrementalPass (grouped B (s.changes + new)) s.totals).lookup k = some m := hm
      rw [lookup_incrementalPass hw] at hm
      by_cases hk : k ∈ (newDeltas (grouped B (s.changes + new)) w).keys
      · -- the total is new
        rw [if_pos hk] at hm
        rw [← Option.some.inj hm]
        exact h.add_of_new new hw (mem_newKeys.mp hk).1
      · -- the total was there
        rw [if_neg hk] at hm
        exact h.add_of_old new hw hm
    · -- the watermark does not fall
      obtain ⟨k, hk, hkw⟩ := Finset.mem_image.mp (lastBucket_eq_some hw).1
      have hww : w ≤ w' := hkw ▸ le_watermark hw' ((hmem k).mpr (.inl (Finmap.mem_keys.mp hk)))
      obtain hc | hc := Multiset.mem_add.mp hc
      · exact (h.late_le w hw c hc).trans hww
      · rw [lateOf_of_some hw] at hc
        exact (Multiset.mem_filter.mp hc).2.trans hww

/-- **A refresh leaves the totals exact exactly if the late changes cancel.** -/
theorem Sound.exact_refresh {s : Kept B} (h : s.Sound) (new : Multiset ι) :
    (s.refresh new).Exact ↔ s.LateCancel new := by
  rw [(h.refresh new).exact_iff]
  cases hw : watermark s.totals with
  | none =>
    -- there is no total that could be wrong
    have hnone : ∀ k, k ∉ (s.refresh new).totals := fun k hk => by
      rw [totals_refresh_of_none hw] at hk
      have hempty := lastBucket_eq_none.mp hw
      have hmem := Finset.mem_image_of_mem Prod.snd (Finmap.mem_keys.mpr hk)
      rw [hempty] at hmem
      cases hmem
    refine iff_of_true (fun k hk => absurd hk (hnone k)) fun w hw' => ?_
    rw [hw] at hw'
    cases hw'
  | some w =>
    constructor
    · intro hcancel w' hw' k hk
      obtain rfl := Option.some.inj (hw.symm.trans hw')
      exact hcancel k ((mem_totals_refresh h hw k).mpr hk)
    · intro hcancel k hk
      exact hcancel w hw k ((mem_totals_refresh h hw k).mp hk)

/-- A step of the upkeep. -/
def step (s : Kept B) (new : Multiset ι) : Option (Kept B) := some (s.refresh new)

/-- **The totals are exact after every refresh exactly if the late changes always
cancel.** -/
theorem Sound.always_exact_iff {s : Kept B} (h : s.Sound) (hexact : s.Exact)
    (growths : List (Multiset ι)) :
    Run.Always step Exact s growths ↔ Run.EachStep step LateCancel s growths := by
  refine Run.always_iff_eachStep (fun s new s' hs hstep => ?_)
    (fun s new s' hs _ hstep => ?_) h hexact growths
  · cases hstep
    exact hs.refresh new
  · cases hstep
    exact hs.exact_refresh new

/-- The new changes are after the watermark, if there is one. -/
def InTime (s : Kept B) (new : Multiset ι) : Prop :=
  ∀ w, watermark s.totals = some w → ∀ c ∈ new, w < B.bucket c

/-- **Changes that come in time leave nothing to cancel.** -/
theorem lateCancel_of_inTime {s : Kept B} (hlate : watermark s.totals = none ∨ s.late = 0)
    {growths : List (Multiset ι)} (h : Run.EachStep step InTime s growths) :
    Run.EachStep step LateCancel s growths := by
  induction growths generalizing s with
  | nil => trivial
  | cons new growths ih =>
    intro s' hstep
    obtain ⟨htime, hrest⟩ := h s' hstep
    cases hstep
    have hnext : ∀ w, watermark s.totals = some w → s.late + s.lateOf new = 0 := fun w hw => by
      have hzero : s.late = 0 := hlate.resolve_left (by rw [hw]; exact nofun)
      rw [lateOf_of_some hw, hzero, zero_add]
      exact Multiset.filter_eq_nil.mpr fun c hc => not_le.mpr (htime w hw c hc)
    refine ⟨fun w hw k _ => ?_, ih ?_ hrest⟩
    · rw [hnext w hw]
      rfl
    · cases hw : watermark s.totals with
      | none =>
        rw [totals_refresh_of_none hw]
        exact .inl hw
      | some w => exact .inr (hnext w hw)

end Kept

end RunningTotals
