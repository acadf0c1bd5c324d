import IntuitionCore.Activity.Cycles

/-!
# Whether the days are complete

A cycle computes the row of the day it runs on. An event that is marked on one day and
drained on the next is therefore in no row that the cycle computes, and the backfill,
which would aggregate its day, does not run again.

So the row of an account is as it was when it was last computed, by a cycle on that very
day or by the backfill of the day. It is complete exactly if this was not before an event
whose mark a cycle has drained, and finished.
-/

open UserActivityRepo

/-- What a list of events has of an account on a day is all that it did up to an
event. -/
def Reaches (events present : List ParsedEvent) (accountId : String) (day : ℤ)
    (e : ParsedEvent) : Prop :=
  ∃ older, older <+: events ∧ e ∈ older
    ∧ activity day accountId older <+: activity day accountId present

namespace ActivityCycles

variable (s : ActivityCycles)

/-- **The day of an event is complete for an account**: the row is what the backfill
would aggregate of the events that were there at some time since the event was. -/
def RollupComplete (accountId : String) (e : ParsedEvent) : Prop :=
  ∀ day ∈ eventDay? e, ∃ present, present <+: s.events ∧ e ∈ present
    ∧ ∀ r ∈ aggregateDay present day, r.accountId = accountId →
      s.daily.lookup (accountId, day) = some r

/-- The days of the events whose marks were drained by cycles that finished are
complete. -/
def RollupsComplete : Prop := ∀ m ∈ s.settled, s.RollupComplete m.1 m.2

/-- The events that were there when a row was computed. -/
def presentAt (k : String × ℤ) : List ParsedEvent := (s.present.lookup k).getD []

/-- When the row of the day of an event was last computed, all was there that the
account did on the day up to the event. -/
def Covered (accountId : String) (e : ParsedEvent) : Prop :=
  ∀ day ∈ eventDay? e, Reaches s.events (s.presentAt (accountId, day)) accountId day e

/-- A cycle that finishes has the days of its marks covered. And a backfill does not
write over a row what it aggregated before an event whose mark was drained by a cycle
that has finished. -/
def MaySettle : Action → Prop
  | .finish i => ∀ c, s.cycles.lookup i = some c → ∀ m ∈ c.marks, s.Covered m.1 m.2
  | .writeRollups i => ∀ c, s.cycles.lookup i = some c → ∀ day today rollups present,
      c.phase = .writing day today rollups present →
        ∀ m ∈ s.settled, eventDay? m.2 = some day → (∃ r ∈ rollups, r.accountId = m.1) →
          Reaches s.events present m.1 day m.2
  | _ => True

/-! ## Rows and the events they were computed from -/

end ActivityCycles

section Sound

variable (events : List ParsedEvent) (presentAt : String × ℤ → List ParsedEvent)

/-- A computed row is that of the events that were there, and what is committed of the
same day was computed before it. -/
structure ComputedRollup.Sound (r : ComputedRollup) : Prop where
  row : r.row = todayRollup r.present r.row.accountId r.row.day
  stored : r.present <+: events
  newer : presentAt r.row.key <+: r.present

/-- What a cycle has computed and not yet written. -/
def ActivityPhase.Sound : ActivityPhase → Prop
  | .chunk c => ∀ r ∈ c.rollups, r.Sound events presentAt
  | .writing day _ rollups present => present <+: events ∧ rollups = aggregateDay present day
  | _ => True

/-- An idle cycle has computed nothing. -/
theorem ActivityPhase.Idle.sound {phase : ActivityPhase} (h : phase.Idle) :
    phase.Sound events presentAt := by
  cases phase <;> first | exact h.elim | trivial

end Sound

namespace ActivityCycles

/-- Each row is that of the events that were there when it was computed. -/
structure RollupsSound (s : ActivityCycles) : Prop where
  row : ∀ k, s.daily.lookup k = (s.present.lookup k).map fun present => todayRollup present k.1 k.2
  stored : ∀ k, s.presentAt k <+: s.events
  cycle : ∀ i c, s.cycles.lookup i = some c → c.phase.Sound s.events s.presentAt
  /-- No row is written by two open transactions. -/
  apart : ∀ i j c d, s.cycles.lookup i = some c → s.cycles.lookup j = some d → i ≠ j →
    Disjoint c.writtenRollups d.writtenRollups

variable {s s' : ActivityCycles} {i : ℕ}

/-- A row that was computed from activity is there. -/
theorem RollupsSound.lookup_daily (h : s.RollupsSound) {a : String} {day : ℤ}
    (hactive : activity day a (s.presentAt (a, day)) ≠ []) :
    s.daily.lookup (a, day) = some (todayRollup (s.presentAt (a, day)) a day) := by
  rw [h.row]
  unfold presentAt at hactive ⊢
  cases hlookup : s.present.lookup (a, day) with
  | none =>
    rw [hlookup] at hactive
    exact absurd rfl hactive
  | some computed => rfl

/-- **A row is complete exactly if it was computed late enough.** -/
theorem rollupComplete_iff (h : s.RollupsSound) {a : String} {e : ParsedEvent} :
    s.RollupComplete a e ↔ s.Covered a e := by
  refine forall₂_congr fun day _ => ?_
  constructor
  · rintro ⟨present, hpresent, he, hrow⟩
    refine ⟨present, hpresent, he, ?_⟩
    by_cases hnone : activity day a present = []
    · rw [hnone]
      exact List.nil_prefix
    · -- the row is the one of these events, so that it was computed from as many
      have hlookup := hrow (todayRollup present a day)
        (mem_aggregateDay.mpr ⟨hnone, rfl⟩) rfl
      rw [h.row] at hlookup
      obtain ⟨computed, hcomputed, heq⟩ := Option.map_eq_some_iff.mp hlookup
      have hat : s.presentAt (a, day) = computed := by
        unfold presentAt
        rw [hcomputed]
        rfl
      rw [hat]
      have hstored : computed <+: s.events := hat ▸ h.stored (a, day)
      obtain hle | hle := List.prefix_or_prefix_of_prefix hstored hpresent
      · rw [(todayRollup_eq_iff hle).mp heq]
      · rw [(todayRollup_eq_iff hle).mp heq.symm]
  · rintro ⟨older, holder, he, hreach⟩
    obtain hle | hle := List.prefix_or_prefix_of_prefix holder (h.stored (a, day))
    · refine ⟨s.presentAt (a, day), h.stored _, hle.subset he, fun r hr hra => ?_⟩
      obtain ⟨hactive, hrow⟩ := mem_aggregateDay.mp hr
      rw [hra] at hactive hrow
      rw [h.lookup_daily hactive, hrow]
    · -- nothing happened between the computation and the event
      have heq : activity day a (s.presentAt (a, day)) = activity day a older :=
        (hle.filter _).eq_of_length_le hreach.length_le
      refine ⟨older, holder, he, fun r hr hra => ?_⟩
      obtain ⟨hactive, hrow⟩ := mem_aggregateDay.mp hr
      rw [hra, ← heq] at hactive
      rw [hra] at hrow
      rw [h.lookup_daily hactive, hrow, (todayRollup_eq_iff hle).mpr heq]

/-- A later state of the events, and a later computation, cover at least as much. -/
theorem Covered.mono {a : String} {e : ParsedEvent} (h : s.Covered a e)
    (hevents : s.events <+: s'.events) (hpresent : ∀ k, s.presentAt k <+: s'.presentAt k) :
    s'.Covered a e := by
  intro day hday
  obtain ⟨older, holder, he, hreach⟩ := h day hday
  exact ⟨older, holder.trans hevents, he, hreach.trans ((hpresent _).filter _)⟩

/-! ## What a step does to the rows -/

/-- **What rows are written**: that of a key becomes one of those written under it, if
there is any. -/
theorem lookup_write (rows : List ComputedRollup) (k : String × ℤ) :
    (∃ r ∈ rows, r.row.key = k ∧ (s.write rows).daily.lookup k = some r.row
        ∧ (s.write rows).present.lookup k = some r.present)
      ∨ ((∀ r ∈ rows, r.row.key ≠ k) ∧ (s.write rows).daily.lookup k = s.daily.lookup k
        ∧ (s.write rows).present.lookup k = s.present.lookup k) := by
  induction rows generalizing s with
  | nil => exact .inr ⟨fun r hr => absurd hr List.not_mem_nil, rfl, rfl⟩
  | cons r rows ih =>
    have hcons : s.write (r :: rows) = (s.write [r]).write rows := rfl
    have hone : (s.write [r]).daily.lookup k
          = (if k = r.row.key then some r.row else s.daily.lookup k)
        ∧ (s.write [r]).present.lookup k
          = if k = r.row.key then some r.present else s.present.lookup k :=
      ⟨Table.lookup_upsert s.daily r.row.key k fun _ => r.row,
        Table.lookup_upsert s.present r.row.key k fun _ => r.present⟩
    rw [hcons]
    obtain ⟨r', hr', hkey, hrow⟩ | ⟨hother, hdaily, hpresent⟩ := ih (s := s.write [r])
    · exact .inl ⟨r', List.mem_cons_of_mem r hr', hkey, hrow⟩
    · rw [hdaily, hpresent, hone.1, hone.2]
      by_cases hk : k = r.row.key
      · rw [if_pos hk, if_pos hk]
        exact .inl ⟨r, List.mem_cons_self, hk.symm, rfl, rfl⟩
      · rw [if_neg hk, if_neg hk]
        exact .inr ⟨List.forall_mem_cons.mpr ⟨fun h => hk h.symm, hother⟩, rfl, rfl⟩

/-- A cycle that has computed nothing holds no lock on a row. -/
theorem writtenRollups_of_idle {c : ActivityCycle} (h : c.phase.Idle) : c.writtenRollups = ∅ := by
  unfold ActivityCycle.writtenRollups
  split
  · rename_i hphase
    rw [hphase] at h
    exact h.elim
  · rfl

/-- A cycle that moves keeps the rows sound, if what it has computed is sound and no
other transaction has its rows. -/
theorem RollupsSound.of_setCycle {c : Option ActivityCycle} (h : s.RollupsSound)
    (hsound : ∀ d ∈ c, d.phase.Sound s.events s.presentAt)
    (hfree : ∀ d ∈ c, ∀ j d', j ≠ i → s.cycles.lookup j = some d' →
      Disjoint d.writtenRollups d'.writtenRollups) : (s.setCycle i c).RollupsSound where
  row := h.row
  stored := h.stored
  cycle := forall_setCycle h.cycle hsound
  apart := fun j k d d' hd hd' hne => by
    rw [lookup_setCycle] at hd hd'
    by_cases hj : j = i
    · rw [if_pos hj] at hd
      rw [if_neg fun hk => hne (hj.trans hk.symm)] at hd'
      exact hfree d hd k d' (fun hk => hne (hj.trans hk.symm)) hd'
    · rw [if_neg hj] at hd
      by_cases hk : k = i
      · rw [if_pos hk] at hd'
        exact (hfree d' hd' j d hj hd).symm
      · rw [if_neg hk] at hd'
        exact h.apart j k d d' hd hd' hne

/-- The same, for a cycle that has no rows. -/
theorem RollupsSound.of_setCycle_empty {c : Option ActivityCycle} (h : s.RollupsSound)
    (hsound : ∀ d ∈ c, d.phase.Sound s.events s.presentAt)
    (hempty : ∀ d ∈ c, d.writtenRollups = ∅) : (s.setCycle i c).RollupsSound :=
  h.of_setCycle hsound fun d hd j d' _ _ => by
    rw [hempty d hd]
    exact Finset.disjoint_empty_left _

theorem RollupsSound.of_setCycle_some {c : ActivityCycle} (h : s.RollupsSound)
    (hsound : c.phase.Sound s.events s.presentAt) (hempty : c.writtenRollups = ∅) :
    (s.setCycle i (some c)).RollupsSound := by
  refine h.of_setCycle_empty (fun d hd => ?_) fun d hd => ?_
  · obtain rfl := Option.some.inj hd
    exact hsound
  · obtain rfl := Option.some.inj hd
    exact hempty

/-- The rows that a transaction has written are locked. -/
theorem key_mem_writtenRollups {c : OpenChunk} {marks : Finset (String × ParsedEvent)}
    {r : ComputedRollup} (hr : r ∈ c.rollups) :
    r.row.key ∈ (⟨.chunk c, marks⟩ : ActivityCycle).writtenRollups :=
  List.mem_toFinset.mpr (List.mem_map.mpr ⟨r, hr, rfl⟩)

/-- **What is written is sound**, as no other transaction has computed the same
rows. -/
theorem RollupsSound.of_write {rows : List ComputedRollup} {c : ActivityCycle}
    (h : s.RollupsSound)
    (hrow : ∀ r ∈ rows, r.row = todayRollup r.present r.row.accountId r.row.day)
    (hstored : ∀ r ∈ rows, r.present <+: s.events)
    (hfree : ∀ j d, j ≠ i → s.cycles.lookup j = some d →
      ∀ r ∈ rows, r.row.key ∉ d.writtenRollups)
    (hidle : ∀ presentAt, c.phase.Sound s.events presentAt) (hempty : c.writtenRollups = ∅) :
    ((s.write rows).setCycle i (some c)).RollupsSound where
  row := fun k => by
    show (s.write rows).daily.lookup k = ((s.write rows).present.lookup k).map _
    obtain ⟨r, hr, rfl, hdaily, hpresent⟩ | ⟨-, hdaily, hpresent⟩ := lookup_write (s := s) rows k
    · rw [hdaily, hpresent, hrow r hr]
      rfl
    · rw [hdaily, hpresent, h.row]
  stored := fun k => by
    show ((s.write rows).present.lookup k).getD [] <+: s.events
    obtain ⟨r, hr, -, -, hpresent⟩ | ⟨-, -, hpresent⟩ := lookup_write (s := s) rows k
    · rw [hpresent]
      exact hstored r hr
    · rw [hpresent]
      exact h.stored k
  cycle := fun j d hd => by
    rw [lookup_setCycle] at hd
    by_cases hj : j = i
    · rw [if_pos hj] at hd
      obtain rfl := Option.some.inj hd
      exact hidle _
    · rw [if_neg hj] at hd
      have hsound := h.cycle j d hd
      obtain ⟨phase, marks⟩ := d
      cases phase with
      | chunk chunk =>
        refine fun r hr => ⟨(hsound r hr).row, (hsound r hr).stored, ?_⟩
        show ((s.write rows).present.lookup r.row.key).getD [] <+: r.present
        obtain ⟨r', hr', hkey, -⟩ | ⟨-, -, hpresent⟩ := lookup_write (s := s) rows r.row.key
        · exact absurd (hkey ▸ key_mem_writtenRollups hr) (hfree j _ hj hd r' hr')
        · rw [hpresent]
          exact (hsound r hr).newer
      | _ => exact hsound
  apart := (h.of_setCycle_some (hidle _) hempty).apart

/-- **Rows stay sound.** -/
theorem RollupsSound.step {a : Action} (h : s.RollupsSound) (hstep : s.step a = some s') :
    s'.RollupsSound := by
  cases effect_of_step hstep with
  | ingest events =>
    refine ⟨h.row, fun k => (h.stored k).trans (List.prefix_append _ _), fun i c hc => ?_, h.apart⟩
    have hsound := h.cycle i c hc
    obtain ⟨phase, marks⟩ := c
    cases phase with
    | chunk chunk =>
      exact fun r hr => ⟨(hsound r hr).row, (hsound r hr).stored.trans (List.prefix_append _ _),
        (hsound r hr).newer⟩
    | writing day today rollups present =>
      exact ⟨hsound.1.trans (List.prefix_append _ _), hsound.2⟩
    | _ => exact trivial
  | mark events => exact ⟨h.row, h.stored, h.cycle, h.apart⟩
  | quiet a i c backfill ha hbefore hafter =>
    have h' := h.of_setCycle_empty (i := i) (c := c) (fun d hd => (hafter d hd).sound _ _)
      fun d hd => writtenRollups_of_idle (hafter d hd)
    exact ⟨h'.row, h'.stored, h'.cycle, h'.apart⟩
  | commitDrain i order accounts marks hc horder =>
    have h' := h.of_setCycle_some (i := i)
      (c := ⟨.recomputing order, s.pending.filter fun m => m.1 ∈ accounts⟩) trivial rfl
    exact ⟨h'.row, h'.stored, h'.cycle, h'.apart⟩
  | beginChunk i now remaining marks hc =>
    exact h.of_setCycle_some (fun r hr => absurd hr List.not_mem_nil) rfl
  | rollup i chunk marks accountId todo hc htodo hfree =>
    have hsound : ∀ r ∈ chunk.rollups, r.Sound s.events s.presentAt := h.cycle i _ hc
    refine h.of_setCycle (fun d hd => ?_) fun d hd j d' hj hd' => ?_
    · obtain rfl := Option.some.inj hd
      refine List.forall_mem_append.mpr ⟨hsound, List.forall_mem_singleton.mpr ?_⟩
      exact ⟨rfl, List.prefix_rfl, h.stored _⟩
    · obtain rfl := Option.some.inj hd
      -- the rows it had are its own, and nobody has the new one
      have hold := h.apart i j _ d' hc hd' (Ne.symm hj)
      have hnew : (accountId, utcDay chunk.now) ∉ d'.writtenRollups := fun hmem =>
        hfree (mem_locked.mpr ⟨j, d', hd', hmem⟩)
      refine Finset.disjoint_left.mpr fun k hk hk' => ?_
      obtain ⟨r, hr, rfl⟩ := List.mem_map.mp (List.mem_toFinset.mp hk)
      obtain hr | hr := List.mem_append.mp hr
      · exact Finset.disjoint_left.mp hold (key_mem_writtenRollups hr) hk'
      · obtain rfl := List.mem_singleton.mp hr
        exact hnew hk'
  | profile i chunk marks accountId todo profile hc =>
    refine h.of_setCycle (fun d hd => ?_) fun d hd j d' hj hd' => ?_
    · obtain rfl := Option.some.inj hd
      exact h.cycle i ⟨.chunk chunk, marks⟩ hc
    · obtain rfl := Option.some.inj hd
      exact h.apart i j ⟨.chunk chunk, marks⟩ d' hc hd' (Ne.symm hj)
  | commitChunk i chunk marks profiles hc htodo =>
    have hsound : ∀ r ∈ chunk.rollups, r.Sound s.events s.presentAt := h.cycle i _ hc
    have h' := h.of_write (i := i) (c := ⟨.recomputing chunk.rest, marks⟩)
      (fun r hr => (hsound r hr).row) (fun r hr => (hsound r hr).stored)
      (fun j d hj hd r hr => Finset.disjoint_left.mp (h.apart i j _ d hc hd (Ne.symm hj))
        (key_mem_writtenRollups hr)) (fun _ => trivial) rfl
    exact ⟨h'.row, h'.stored, h'.cycle, h'.apart⟩
  | finish i marks hc =>
    have h' := h.of_setCycle_empty (i := i) (c := none) nofun nofun
    exact ⟨h'.row, h'.stored, h'.cycle, h'.apart⟩
  | aggregate i day today marks hc =>
    exact h.of_setCycle_some ⟨List.prefix_rfl, rfl⟩ rfl
  | writeRollups i day today rollups present marks hc hfree =>
    obtain ⟨hpresent, rfl⟩ := h.cycle i _ hc
    refine h.of_write (List.forall_mem_map.mpr fun r hr => ?_)
      (List.forall_mem_map.mpr fun r hr => hpresent) (fun j d hj hd => ?_) (fun _ => trivial) rfl
    · obtain ⟨-, hrow⟩ := mem_aggregateDay.mp hr
      have hday : r.day = day := by rw [hrow]; rfl
      exact hrow.trans (by rw [hday])
    · exact List.forall_mem_map.mpr fun r hr hmem => hfree r hr (mem_locked.mpr ⟨j, d, hd, hmem⟩)
  | fail i c hc => exact h.of_setCycle_empty nofun nofun

/-- What was computed is written over what was computed before. -/
theorem presentAt_le_write {c : OpenChunk} (hsound : ∀ r ∈ c.rollups, r.Sound s.events s.presentAt)
    (k : String × ℤ) : s.presentAt k <+: (s.write c.rollups).presentAt k := by
  show _ <+: ((s.write c.rollups).present.lookup k).getD []
  obtain ⟨r, hr, rfl, -, hpresent⟩ | ⟨-, -, hpresent⟩ := lookup_write (s := s) c.rollups k
  · rw [hpresent]
    exact (hsound r hr).newer
  · rw [hpresent]
    exact List.prefix_rfl

/-- **A backfill keeps what is covered exactly if it aggregated late enough.** -/
theorem covered_write_iff {rollups : List DailyRollup} {day : ℤ} {present : List ParsedEvent}
    (hday : ∀ r ∈ rollups, r.day = day) {a : String} {e : ParsedEvent} (h : s.Covered a e) :
    (s.write (rollups.map fun r => ⟨r, present⟩)).Covered a e
      ↔ (eventDay? e = some day → (∃ r ∈ rollups, r.accountId = a) →
        Reaches s.events present a day e) := by
  constructor
  · rintro hnew he ⟨r, hr, rfl⟩
    have hreach : Reaches s.events (((s.write (rollups.map fun r => ⟨r, present⟩)).present.lookup
        (r.accountId, day)).getD []) r.accountId day e := hnew day he
    obtain ⟨r', hr', -, -, hpresent⟩ | ⟨hother, -, -⟩ :=
      lookup_write (s := s) (rollups.map fun r => ⟨r, present⟩) (r.accountId, day)
    · obtain ⟨r'', -, rfl⟩ := List.mem_map.mp hr'
      rwa [hpresent] at hreach
    · have hkey : r.key = (r.accountId, day) := Prod.ext rfl (hday r hr)
      exact absurd hkey (hother ⟨r, present⟩ (List.mem_map_of_mem hr))
  · intro hsafe d he
    show Reaches s.events (((s.write (rollups.map fun r => ⟨r, present⟩)).present.lookup
      (a, d)).getD []) a d e
    obtain ⟨r', hr', hkey, -, hpresent⟩ | ⟨-, -, hpresent⟩ :=
      lookup_write (s := s) (rollups.map fun r => ⟨r, present⟩) (a, d)
    · obtain ⟨r, hr, rfl⟩ := List.mem_map.mp hr'
      obtain ⟨rfl, rfl⟩ := Prod.mk.inj hkey
      rw [hpresent, hday r hr]
      rw [hday r hr] at he
      exact hsafe he ⟨r, hr, rfl⟩
    · rw [hpresent]
      exact h d he

/-- **Only a cycle that finishes and a backfill can leave a day incomplete**, and what
they must be for that. -/
theorem rollupsComplete_step_iff {a : Action} (hsound : s.RollupsSound) (h : s.RollupsComplete)
    (hstep : s.step a = some s') : s'.RollupsComplete ↔ s.MaySettle a := by
  have hsound' := hsound.step hstep
  have hcovered : ∀ m ∈ s.settled, s.Covered m.1 m.2 := fun m hm =>
    (rollupComplete_iff hsound).mp (h m hm)
  have hiff : s'.RollupsComplete ↔ ∀ m ∈ s'.settled, s'.Covered m.1 m.2 :=
    forall₂_congr fun m _ => rollupComplete_iff hsound'
  rw [hiff]
  cases effect_of_step hstep with
  | ingest events =>
    refine iff_of_true (fun m hm => ?_) trivial
    exact (hcovered m hm).mono (List.prefix_append _ _) fun _ => List.prefix_rfl
  | quiet a i c backfill ha hbefore hafter =>
    have hsafe : s.MaySettle a := by cases a <;> trivial
    exact iff_of_true hcovered hsafe
  | mark | commitDrain | beginChunk | rollup | profile | aggregate | fail =>
    exact iff_of_true hcovered trivial
  | commitChunk i chunk marks profiles hc htodo =>
    refine iff_of_true (fun m hm => ?_) trivial
    exact (hcovered m hm).mono List.prefix_rfl (presentAt_le_write (hsound.cycle i _ hc))
  | finish i marks hc =>
    constructor
    · intro hall c hc' m hm
      obtain rfl := Option.some.inj (hc.symm.trans hc')
      exact hall m (Finset.mem_union_right _ hm)
    · intro hmarks m hm
      obtain hm | hm := Finset.mem_union.mp hm
      · exact hcovered m hm
      · exact hmarks _ hc m hm
  | writeRollups i day today rollups present marks hc hfree =>
    have hday : ∀ r ∈ rollups, r.day = day := fun r hr => by
      rw [(hsound.cycle i _ hc).2] at hr
      rw [(mem_aggregateDay.mp hr).2]
      rfl
    constructor
    · intro hall c hc' day' today' rollups' present' hphase m hm
      obtain rfl := Option.some.inj (hc.symm.trans hc')
      cases hphase
      exact (covered_write_iff hday (hcovered m hm)).mp (hall m hm)
    · intro hsafe m hm
      exact (covered_write_iff hday (hcovered m hm)).mpr
        (hsafe _ hc day today rollups present rfl m hm)

/-- **Where nothing of a day is left to drain, the row is the aggregate of the day.** -/
theorem RollupsComplete.lookup_daily (h : s.RollupsComplete) (hnodup : s.events.Nodup) {a : String}
    {day : ℤ} (hsettled : ∀ e ∈ activity day a s.events, (a, e) ∈ s.settled) {r : DailyRollup}
    (hr : r ∈ aggregateDay s.events day) (hra : r.accountId = a) :
    s.daily.lookup (a, day) = some r := by
  obtain ⟨hactive, hrow⟩ := mem_aggregateDay.mp hr
  rw [hra] at hactive hrow
  -- the row has the last event of the day, and so all of them
  have hlast := List.getLast_mem hactive
  obtain ⟨present, ⟨rest, hrest⟩, he, hcomplete⟩ :=
    h _ (hsettled _ hlast) day (eventDay?_of_isActivity (List.mem_filter.mp hlast).2)
  have hnone : activity day a rest = [] := by
    by_contra hne
    have hmem : (activity day a s.events).getLast hactive ∈ rest := by
      have happend : activity day a s.events = activity day a present ++ activity day a rest := by
        rw [← hrest]
        exact List.filter_append ..
      have heq : (activity day a s.events).getLast hactive = (activity day a rest).getLast hne := by
        simp only [happend]
        exact List.getLast_append_of_ne_nil _ hne
      rw [heq]
      exact (List.mem_filter.mp (List.getLast_mem hne)).1
    rw [← hrest] at hnodup
    exact (List.nodup_append.mp hnodup).2.2 _ he _ hmem rfl
  have hsame : activity day a present = activity day a s.events := by
    rw [← hrest]
    exact (List.append_nil _).symm.trans (hnone ▸ (List.filter_append ..).symm)
  have hpresent : todayRollup present a day = todayRollup s.events a day :=
    (todayRollup_eq_iff ⟨rest, hrest⟩).mpr hsame
  rw [hrow, ← hpresent]
  exact hcomplete _ (mem_aggregateDay.mpr ⟨hsame ▸ hactive, rfl⟩) rfl

/-- In the beginning there are no rows. -/
theorem rollupsSound_start (events : List ParsedEvent) (db : ActivityDb)
    (profiles : Table String ActivityProfile) (backfill : BackfillState) :
    RollupsSound { events, db, profiles, backfill } where
  row := fun _ => rfl
  stored := fun _ => List.nil_prefix
  cycle := nofun
  apart := nofun

end ActivityCycles

/-- **The days are complete exactly if they are computed late enough.** Whatever is
stored and marked, and whatever cycles do and on which days, the row of an account for
the day of an event whose mark a finished cycle has drained is what the backfill would
aggregate of the events that were there at some time since, in every state that is
passed, if and only if: each cycle that finishes has the days of its marks covered, and
no backfill writes over such a row what it aggregated before the event. -/
theorem rollups_complete_iff (events : List ParsedEvent) (db : ActivityDb)
    (profiles : Table String ActivityProfile) (backfill : BackfillState)
    (schedule : List ActivityCycles.Action) :
    Run.Always ActivityCycles.step ActivityCycles.RollupsComplete
        { events, db, profiles, backfill } schedule
      ↔ Run.EachStep ActivityCycles.step ActivityCycles.MaySettle
        { events, db, profiles, backfill } schedule :=
  Run.always_iff_eachStep (I := ActivityCycles.RollupsSound)
    (fun _ _ _ hsound hstep => hsound.step hstep)
    (fun _ _ _ hsound h hstep => ActivityCycles.rollupsComplete_step_iff hsound h hstep)
    (ActivityCycles.rollupsSound_start events db profiles backfill)
    (fun m hm => absurd hm (Finset.notMem_empty m)) schedule

/-! ## A cycle after midnight -/

/-- A deposit in the last second of the first day. -/
def lateDeposit : ParsedEvent :=
  ParsedEvent.parseOrUnknown { firstDeposit with blockTimestamp := 86399 }

/-- It is stored and marked after a backfill that found nothing, and the cycle that
drains the mark computes the account ten seconds later. -/
def drainsAfterMidnight : List ActivityCycles.Action :=
  [.begin 0, .planBackfill 0 0, .complete 0, .ingest [lateDeposit], .mark [lateDeposit],
    .begin 1, .drain 1 {"0xa"}, .commitDrain 1 ["0xa"], .beginChunk 1 86409, .execute 1, .execute 1,
    .commitChunk 1, .finish 1]

/-- **A day can stay incomplete**: it has no row of the deposit, and nothing of the
deposit is left to compute. -/
theorem drainsAfterMidnight_not_rollupsComplete :
    ¬ ∀ (schedule : List ActivityCycles.Action) (s : ActivityCycles),
      Run.follow ActivityCycles.step {} schedule = some s → s.RollupsComplete := by
  intro h
  have hrun : (Run.follow ActivityCycles.step {} drainsAfterMidnight).map
      (fun s => (s.events, s.daily.lookup ("0xa", 0), s.settled))
      = some ([lateDeposit], none, {("0xa", lateDeposit)}) := by
    decide +kernel
  obtain ⟨s, hs, heq⟩ := Option.map_eq_some_iff.mp hrun
  simp only [Prod.mk.injEq] at heq
  obtain ⟨hevents, hdaily, hsettled⟩ := heq
  obtain ⟨present, hpresent, he, hrow⟩ := h drainsAfterMidnight s hs ("0xa", lateDeposit)
    (hsettled ▸ Finset.mem_singleton_self _) 0 (by decide +kernel)
  rw [hevents] at hpresent
  -- the event was there only when everything was
  obtain rfl : present = [lateDeposit] :=
    hpresent.eq_of_length_le (List.length_pos_of_mem he)
  have hlookup := hrow (todayRollup [lateDeposit] "0xa" 0)
    (mem_aggregateDay.mpr ⟨by decide +kernel, rfl⟩) rfl
  rw [hdaily] at hlookup
  cases hlookup
