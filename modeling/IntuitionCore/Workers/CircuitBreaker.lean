import IntuitionCore.Library.Run
import Mathlib.Algebra.Group.Nat.Defs

/-!
# The circuit breaker of a worker

The tasks of a worker share a circuit breaker for each thing that they depend on. It is
asked when an operation is to run, and told of the result when the operation has settled.
It is closed, and counts failures in a row; or it is open, and rejects operations until
some time has passed; or it is half-open, and lets one operation through, to test
recovery.

Many operations are in progress at a time, and each may settle at any later time, also
after the circuit has opened, or while another one probes it. The breaker does not tell
them apart: the result of an operation that was admitted before the circuit opened is
recorded like that of the probe.

Times and durations are in milliseconds.
-/

namespace Workers

/-- The state of a circuit. -/
inductive CircuitState where
  | closed
  | opened
  | halfOpen
  deriving DecidableEq, Repr

/-- What is thrown where an operation may not run. -/
structure CircuitOpenError where
  circuitName : String
  deriving DecidableEq, Repr

def CircuitOpenError.message (e : CircuitOpenError) : String :=
  "Circuit " ++ e.circuitName ++ " is open."

/-- What a breaker is made with. -/
structure CircuitBreakerConfig (ε : Type) where
  name : String
  failureThreshold : ℕ
  resetAfterMs : ℕ
  shouldRecordFailure : Option (ε → Bool) := none

/-- Whether a result is a failure that counts. Each error does, unless the breaker is told
otherwise. -/
def CircuitBreakerConfig.recordsFailure {ε β : Type} (config : CircuitBreakerConfig ε) :
    Except ε β → Bool
  | .ok _ => false
  | .error error => (config.shouldRecordFailure.map fun f => f error).getD true

structure CircuitBreaker where
  state : CircuitState := .closed
  failures : ℕ := 0
  openedAt : Option ℕ := none
  halfOpenInflight : Bool := false
  deriving DecidableEq, Repr

namespace CircuitBreaker

variable {ε β : Type} (config : CircuitBreakerConfig ε) (cb : CircuitBreaker) (now : ℕ)

/-- A half-open circuit lets an operation through, unless one is in flight. -/
def admitProbe : Except CircuitOpenError Unit × CircuitBreaker :=
  if cb.halfOpenInflight = true then (.error ⟨config.name⟩, cb)
  else (.ok (), { cb with halfOpenInflight := true })

/-- Whether an operation may run, and the breaker after it was asked. -/
def assertCanRun : Except CircuitOpenError Unit × CircuitBreaker :=
  match cb.state with
  | .closed => (.ok (), cb)
  | .opened =>
    match cb.openedAt with
    | none => (.error ⟨config.name⟩, cb)
    | some openedAt =>
      if now - openedAt < config.resetAfterMs then (.error ⟨config.name⟩, cb)
      else admitProbe config { cb with state := .halfOpen, failures := 0 }
  | .halfOpen => cb.admitProbe config

def recordSuccess (_ : CircuitBreaker) : CircuitBreaker :=
  { state := .closed, failures := 0, openedAt := none, halfOpenInflight := false }

/-- The circuit opens. -/
def openAt : CircuitBreaker :=
  { cb with state := .opened, openedAt := some now, halfOpenInflight := false }

def recordFailure : CircuitBreaker :=
  if cb.state = .halfOpen then openAt { cb with failures := 1 } now
  else
    let failed := { cb with failures := cb.failures + 1 }
    if config.failureThreshold ≤ failed.failures then failed.openAt now else failed

/-- An operation has settled. -/
def record (result : Except ε β) : CircuitBreaker :=
  if config.recordsFailure result = true then cb.recordFailure config now else cb.recordSuccess

/-! ## Runs -/

/-- An operation that was admitted. -/
structure Operation where
  admittedAt : ℕ
  /-- How often the circuit had opened. -/
  openings : ℕ
  /-- The circuit was not closed. -/
  probe : Bool
  deriving DecidableEq, Repr

/-- A breaker that is in use. Nothing but the breaker and the clock is read by the code. -/
structure InUse where
  breaker : CircuitBreaker := {}
  clock : ℕ := 0
  inProgress : List Operation := []
  /-- How often the circuit went to open, from another state. -/
  openings : ℕ := 0
  /-- When it last did so. -/
  lastOpening : ℕ := 0
  deriving DecidableEq, Repr

/-- What happens to a breaker. -/
inductive CircuitAction (ε β : Type) where
  | wait (ms : ℕ)
  /-- An operation is to run. -/
  | execute
  /-- An operation settles. -/
  | settle (operation : Operation) (result : Except ε β)

/-- The operation that settles. -/
def CircuitAction.settled? : CircuitAction ε β → Option Operation
  | .settle operation _ => some operation
  | _ => none

namespace InUse

/-- The breaker changes. -/
def update (s : InUse) (breaker : CircuitBreaker) : InUse :=
  if s.breaker.state ≠ .opened ∧ breaker.state = .opened then
    { s with breaker, openings := s.openings + 1, lastOpening := s.clock }
  else { s with breaker }

def step (s : InUse) : CircuitAction ε β → Option InUse
  | .wait ms => some { s with clock := s.clock + ms }
  | .execute =>
    match s.breaker.assertCanRun config s.clock with
    | (.error _, breaker) => some (s.update breaker)
    | (.ok _, breaker) =>
      let operation :=
        { admittedAt := s.clock, openings := s.openings, probe := s.breaker.state != .closed }
      some (update { s with inProgress := operation :: s.inProgress } breaker)
  | .settle operation result =>
    if operation ∈ s.inProgress then
      let inProgress := s.inProgress.erase operation
      some (update { s with inProgress } (s.breaker.record config s.clock result))
    else none

/-- An operation was admitted before the circuit last opened. -/
abbrev IsLate (s : InUse) (operation : Operation) : Prop := operation.openings < s.openings

/-- **One probe at a time.** -/
abbrev OneProbe (s : InUse) : Prop :=
  s.breaker.state = .halfOpen → s.inProgress.countP Operation.probe ≤ 1

/-- **What may happen to a circuit that is not closed**: only an operation that was admitted
after it opened, and no sooner than it may be probed, closes it; and one that was admitted
before leaves the time of opening as it is. -/
abbrev InTurn (s : InUse) (a : CircuitAction ε β) : Prop :=
  ∀ s' ∈ s.step config a, s.breaker.state ≠ .closed →
    (s'.breaker.state = .closed → ∃ operation ∈ a.settled?,
      ¬ s.IsLate operation ∧ s.lastOpening + config.resetAfterMs ≤ operation.admittedAt)
    ∧ ∀ operation ∈ a.settled?, s.IsLate operation → s'.breaker.openedAt = s.breaker.openedAt

/-- A failure that an open circuit counts, and that changes nothing else: it does not reach
the threshold, or comes at the very time of the opening. -/
abbrev OnlyCounts (s : InUse) (result : Except ε β) : Prop :=
  s.breaker.state = .opened ∧ config.recordsFailure result = true
    ∧ (s.breaker.failures + 1 < config.failureThreshold ∨ s.breaker.openedAt = some s.clock)

/-- **No operation settles late**: one that was admitted before the circuit last opened
settles when it is closed again, or with a failure that is only counted. -/
def SettlesInTime (s : InUse) : CircuitAction ε β → Prop
  | .settle operation result =>
    s.IsLate operation → s.breaker.state = .closed ∨ s.OnlyCounts config result
  | _ => True

instance (s : InUse) : ∀ a : CircuitAction ε β, Decidable (s.SettlesInTime config a)
  | .settle operation _ => inferInstanceAs (Decidable (s.IsLate operation → _))
  | .wait _ => .isTrue trivial
  | .execute => .isTrue trivial

/-! ## The invariant -/

/-- What holds of an open circuit: what is in progress was admitted before it opened. -/
structure IsOpened (s : InUse) : Prop where
  openedAt_eq : s.breaker.openedAt = some s.lastOpening
  halfOpenInflight_eq : s.breaker.halfOpenInflight = false
  late : ∀ operation ∈ s.inProgress, operation.probe = false ∧ s.IsLate operation

/-- What holds of a half-open circuit: of what is in progress, only the probe was admitted
after it opened. -/
structure IsProbed (s : InUse) (probe : Operation) : Prop where
  openedAt_eq : s.breaker.openedAt = some s.lastOpening
  halfOpenInflight_eq : s.breaker.halfOpenInflight = true
  mem : probe ∈ s.inProgress
  current : ¬ s.IsLate probe
  admittedAt_ge : s.lastOpening + config.resetAfterMs ≤ probe.admittedAt
  late : ∀ operation ∈ s.inProgress.erase probe, operation.probe = false ∧ s.IsLate operation

/-- **The invariant of a breaker** to which no operation settles late. -/
structure IsKept (s : InUse) : Prop where
  lastOpening_le : s.lastOpening ≤ s.clock
  admitted : ∀ operation ∈ s.inProgress,
    operation.openings ≤ s.openings ∧ operation.admittedAt ≤ s.clock
  closed : s.breaker.state = .closed → ∀ operation ∈ s.inProgress, operation.probe = false
  opened : s.breaker.state = .opened → s.IsOpened
  halfOpen : s.breaker.state = .halfOpen → ∃ probe, s.IsProbed config probe

variable {config} {s s' : InUse} {a : CircuitAction ε β}

/-- Only the probe was admitted after a half-open circuit opened. -/
theorem IsProbed.eq_of_current {probe operation : Operation} (h : s.IsProbed config probe)
    (hmem : operation ∈ s.inProgress) (hcurrent : ¬ s.IsLate operation) : operation = probe := by
  by_contra hne
  exact hcurrent (h.late operation ((List.mem_erase_of_ne hne).mpr hmem)).2

/-- One probe is in progress in a half-open circuit. -/
theorem IsKept.oneProbe (h : s.IsKept config) : s.OneProbe := by
  intro hstate
  obtain ⟨probe, hprobe⟩ := h.halfOpen hstate
  have hrest : (s.inProgress.erase probe).countP Operation.probe = 0 := by
    refine List.countP_eq_zero.mpr fun operation hmem => ?_
    rw [(hprobe.late operation hmem).1]
    exact Bool.false_ne_true
  rw [(List.perm_cons_erase hprobe.mem).countP_eq, List.countP_cons, hrest]
  split <;> decide

/-! ## What a settlement does -/

/-- A failure that is only counted. -/
theorem record_of_onlyCounts {result : Except ε β} (h : s.IsOpened)
    (hcounts : s.OnlyCounts config result) :
    s.breaker.record config s.clock result
      = { s.breaker with failures := s.breaker.failures + 1 } := by
  obtain ⟨hstate, hfailure, hsame⟩ := hcounts
  have hhalf : s.breaker.state ≠ .halfOpen := by
    rw [hstate]
    decide
  simp only [CircuitBreaker.record, CircuitBreaker.recordFailure, if_pos hfailure, if_neg hhalf]
  split
  · next hthreshold =>
    obtain hlt | hopenedAt := hsame
    · exact absurd hthreshold (Nat.not_le.mpr hlt)
    · simp only [openAt, ← hopenedAt, ← hstate, ← h.halfOpenInflight_eq]
  · rfl

/-- A circuit that is not open is closed after a result, or has just opened. -/
theorem record_of_ne_opened {result : Except ε β} {cb : CircuitBreaker} {now : ℕ}
    (h : cb.state ≠ .opened) :
    (cb.record config now result).state = .closed
      ∨ (cb.record config now result).state = .opened
        ∧ (cb.record config now result).openedAt = some now
        ∧ (cb.record config now result).halfOpenInflight = false := by
  unfold CircuitBreaker.record CircuitBreaker.recordFailure
  split
  · split
    · exact .inr ⟨rfl, rfl, rfl⟩
    · next hhalf =>
      dsimp only
      split
      · exact .inr ⟨rfl, rfl, rfl⟩
      · refine .inl ?_
        cases hstate : cb.state with
        | closed => rfl
        | opened => exact absurd hstate h
        | halfOpen => exact absurd hstate hhalf
  · exact .inl rfl

/-- A circuit that does not go to open. -/
theorem update_of_imp {inProgress : List Operation} {breaker : CircuitBreaker}
    (h : breaker.state = .opened → s.breaker.state = .opened) :
    update { s with inProgress } breaker = { s with inProgress, breaker } :=
  if_neg fun hnew => hnew.1 (h hnew.2)

/-- A result ends whatever was probed. -/
theorem isKept_update {inProgress : List Operation} {breaker : CircuitBreaker}
    (hlast : s.lastOpening ≤ s.clock) (hopened : s.breaker.state ≠ .opened)
    (hadmitted : ∀ operation ∈ inProgress,
      operation.openings ≤ s.openings ∧ operation.admittedAt ≤ s.clock)
    (hprobe : ∀ operation ∈ inProgress, operation.probe = false)
    (hbreaker : breaker.state = .closed
      ∨ breaker.state = .opened ∧ breaker.openedAt = some s.clock
        ∧ breaker.halfOpenInflight = false) :
    IsKept config (update { s with inProgress } breaker) := by
  obtain hclosed | ⟨hnew, hopenedAt, hinflight⟩ := hbreaker
  · rw [update_of_imp fun hnew => nomatch hclosed.symm.trans hnew]
    exact {
      lastOpening_le := hlast
      admitted := hadmitted
      closed := fun _ => hprobe
      opened := fun hopen => nomatch hclosed.symm.trans hopen
      halfOpen := fun hhalf => nomatch hclosed.symm.trans hhalf }
  · rw [update, if_pos ⟨hopened, hnew⟩]
    exact {
      lastOpening_le := Nat.le_refl _
      admitted := fun operation hmem =>
        (hadmitted operation hmem).imp_left Nat.le_succ_of_le
      closed := fun hclosed => nomatch hnew.symm.trans hclosed
      opened := fun _ => {
        openedAt_eq := hopenedAt
        halfOpenInflight_eq := hinflight
        late := fun operation hmem =>
          ⟨hprobe operation hmem, Nat.lt_succ_of_le (hadmitted operation hmem).1⟩ }
      halfOpen := fun hhalf => nomatch hnew.symm.trans hhalf }

/-- An open circuit that only counts a failure. -/
theorem IsKept.count (h : s.IsKept config) {operation : Operation}
    (hstate : s.breaker.state = .opened) :
    IsKept config (update { s with inProgress := s.inProgress.erase operation }
      { s.breaker with failures := s.breaker.failures + 1 }) := by
  have hopened := h.opened hstate
  rw [update_of_imp fun _ => hstate]
  exact {
    lastOpening_le := h.lastOpening_le
    admitted := fun _ hmem => h.admitted _ (List.mem_of_mem_erase hmem)
    closed := fun hclosed => nomatch hstate.symm.trans hclosed
    opened := fun _ => {
      openedAt_eq := hopened.openedAt_eq
      halfOpenInflight_eq := hopened.halfOpenInflight_eq
      late := fun _ hmem => hopened.late _ (List.mem_of_mem_erase hmem) }
    halfOpen := fun hhalf => nomatch hstate.symm.trans hhalf }

/-- A result that comes in time. -/
theorem IsKept.settle (h : s.IsKept config) {operation : Operation} {result : Except ε β}
    (hmem : operation ∈ s.inProgress)
    (hsafe : s.IsLate operation → s.breaker.state = .closed ∨ s.OnlyCounts config result) :
    IsKept config (update { s with inProgress := s.inProgress.erase operation }
      (s.breaker.record config s.clock result)) := by
  have hadmitted : ∀ other ∈ s.inProgress.erase operation,
      other.openings ≤ s.openings ∧ other.admittedAt ≤ s.clock :=
    fun other hother => h.admitted other (List.mem_of_mem_erase hother)
  cases hstate : s.breaker.state with
  | closed =>
    have hne : s.breaker.state ≠ .opened := fun hopened => nomatch hstate.symm.trans hopened
    exact isKept_update h.lastOpening_le hne hadmitted
      (fun other hother => h.closed hstate other (List.mem_of_mem_erase hother))
      (record_of_ne_opened hne)
  | opened =>
    have hopened := h.opened hstate
    obtain hclosed | hcounts := hsafe (hopened.late operation hmem).2
    · cases hstate.symm.trans hclosed
    · rw [record_of_onlyCounts hopened hcounts]
      exact h.count hstate
  | halfOpen =>
    obtain ⟨probe, hprobe⟩ := h.halfOpen hstate
    have hne : s.breaker.state ≠ .opened := fun hopened => nomatch hstate.symm.trans hopened
    have hcurrent : ¬ s.IsLate operation := by
      intro hlate
      obtain hclosed | hcounts := hsafe hlate
      · cases hstate.symm.trans hclosed
      · exact hne hcounts.1
    obtain rfl := hprobe.eq_of_current hmem hcurrent
    exact isKept_update h.lastOpening_le hne hadmitted
      (fun other hother => (hprobe.late other hother).1) (record_of_ne_opened hne)

/-! ## What an admission does -/

/-- **What happens to an operation that is to run.** It runs in a closed circuit, or probes
an open one whose time has come; or it is rejected, and nothing changes. -/
theorem IsKept.assertCanRun_cases (h : s.IsKept config) :
    s.breaker.state = .closed ∧ s.breaker.assertCanRun config s.clock = (.ok (), s.breaker)
    ∨ s.breaker.state = .opened ∧ s.lastOpening + config.resetAfterMs ≤ s.clock
      ∧ s.breaker.assertCanRun config s.clock
        = (.ok (), { s.breaker with state := .halfOpen, failures := 0, halfOpenInflight := true })
    ∨ ∃ error, s.breaker.assertCanRun config s.clock = (.error error, s.breaker) := by
  unfold CircuitBreaker.assertCanRun
  cases hstate : s.breaker.state with
  | closed => exact .inl ⟨rfl, rfl⟩
  | opened =>
    have hopened := h.opened hstate
    refine .inr ?_
    simp only [hopened.openedAt_eq]
    split
    · exact .inr ⟨_, rfl⟩
    · next htime =>
      refine .inl ⟨trivial, ?_, ?_⟩
      · have hlast := h.lastOpening_le
        omega
      · rw [admitProbe, if_neg (by rw [hopened.halfOpenInflight_eq]; exact Bool.false_ne_true)]
  | halfOpen =>
    obtain ⟨probe, hprobe⟩ := h.halfOpen hstate
    refine .inr (.inr ⟨⟨config.name⟩, ?_⟩)
    dsimp only
    rw [admitProbe, if_pos hprobe.halfOpenInflight_eq]

/-- An operation is to run. -/
theorem IsKept.execute (h : s.IsKept config)
    (hs' : s.step config (.execute : CircuitAction ε β) = some s') : s'.IsKept config := by
  obtain ⟨hstate, hadmit⟩ | ⟨hstate, htime, hadmit⟩ | ⟨error, hreject⟩ := h.assertCanRun_cases
  · simp only [InUse.step, hadmit, update_of_imp id] at hs'
    cases hs'
    exact {
      lastOpening_le := h.lastOpening_le
      admitted := List.forall_mem_cons.mpr ⟨⟨Nat.le_refl _, Nat.le_refl _⟩, h.admitted⟩
      closed := fun _ => List.forall_mem_cons.mpr ⟨by rw [hstate]; rfl, h.closed hstate⟩
      opened := fun hopened => nomatch hstate.symm.trans hopened
      halfOpen := fun hhalf => nomatch hstate.symm.trans hhalf }
  · have hopened := h.opened hstate
    simp only [InUse.step, hadmit] at hs'
    rw [update_of_imp fun _ => hstate] at hs'
    cases hs'
    exact {
      lastOpening_le := h.lastOpening_le
      admitted := List.forall_mem_cons.mpr ⟨⟨Nat.le_refl _, Nat.le_refl _⟩, h.admitted⟩
      closed := nofun
      opened := nofun
      halfOpen := fun _ => ⟨_, {
        openedAt_eq := hopened.openedAt_eq
        halfOpenInflight_eq := rfl
        mem := List.mem_cons_self
        current := Nat.lt_irrefl _
        admittedAt_ge := htime
        late := by
          intro operation hmem
          rw [List.erase_cons_head] at hmem
          exact hopened.late operation hmem }⟩ }
  · simp only [InUse.step, hreject] at hs'
    obtain rfl := (update_of_imp id).symm.trans (Option.some.inj hs')
    exact h

/-- Time passes. -/
theorem IsKept.wait (h : s.IsKept config) (ms : ℕ) :
    IsKept config { s with clock := s.clock + ms } where
  lastOpening_le := Nat.le_add_right_of_le h.lastOpening_le
  admitted _ hmem := (h.admitted _ hmem).imp_right Nat.le_add_right_of_le
  closed := h.closed
  opened hopened := { h.opened hopened with }
  halfOpen hhalf := (h.halfOpen hhalf).imp fun _ hprobe => { hprobe with }

/-- **Results that come in time keep the invariant.** -/
theorem IsKept.step (h : s.IsKept config) (hsafe : s.SettlesInTime config a)
    (hs' : s.step config a = some s') : s'.IsKept config := by
  cases a with
  | wait ms =>
    cases hs'
    exact h.wait ms
  | execute => exact h.execute hs'
  | settle operation result =>
    obtain ⟨hmem, hs'⟩ := Option.ite_none_right_eq_some.mp hs'
    cases hs'
    exact h.settle hmem hsafe

/-! ## Turns -/

@[simp] theorem update_breaker (s : InUse) (breaker : CircuitBreaker) :
    (s.update breaker).breaker = breaker := by
  unfold update
  split <;> rfl

/-- No operation that is to run closes a circuit. -/
theorem IsKept.execute_ne_closed (h : s.IsKept config) (hstate : s.breaker.state ≠ .closed)
    (hs' : s.step config (.execute : CircuitAction ε β) = some s') :
    s'.breaker.state ≠ .closed := by
  obtain ⟨hclosed, -⟩ | ⟨-, -, hadmit⟩ | ⟨error, hreject⟩ := h.assertCanRun_cases
  · exact absurd hclosed hstate
  · simp only [InUse.step, hadmit] at hs'
    cases hs'
    rw [update_breaker]
    exact nofun
  · simp only [InUse.step, hreject] at hs'
    cases hs'
    rw [update_breaker]
    exact hstate

/-- **Results that come in time come in turn.** -/
theorem IsKept.inTurn (h : s.IsKept config) (hsafe : s.SettlesInTime config a) :
    s.InTurn config a := by
  intro s' hs' hstate
  cases a with
  | wait ms =>
    cases hs'
    exact ⟨fun hclosed => absurd hclosed hstate, nofun⟩
  | execute => exact ⟨fun hclosed => absurd hclosed (h.execute_ne_closed hstate hs'), nofun⟩
  | settle operation result =>
    obtain ⟨hmem, hs'⟩ := Option.ite_none_right_eq_some.mp hs'
    cases hs'
    rw [update_breaker]
    -- one that was admitted before the opening is only counted
    have hlate : s.IsLate operation → s.breaker.state = .opened
        ∧ s.breaker.record config s.clock result
          = { s.breaker with failures := s.breaker.failures + 1 } := by
      intro hlate
      have hcounts := (hsafe hlate).resolve_left hstate
      exact ⟨hcounts.1, record_of_onlyCounts (h.opened hcounts.1) hcounts⟩
    constructor
    · intro hclosed
      have hcurrent : ¬ s.IsLate operation := by
        intro hlate'
        obtain ⟨hopened, hrecord⟩ := hlate hlate'
        rw [hrecord] at hclosed
        exact hstate hclosed
      refine ⟨operation, rfl, hcurrent, ?_⟩
      cases hstate' : s.breaker.state with
      | closed => exact absurd hstate' hstate
      | opened => exact absurd ((h.opened hstate').late operation hmem).2 hcurrent
      | halfOpen =>
        obtain ⟨probe, hprobe⟩ := h.halfOpen hstate'
        obtain rfl := hprobe.eq_of_current hmem hcurrent
        exact hprobe.admittedAt_ge
    · intro operation' hsettled hlate'
      cases hsettled
      rw [(hlate hlate').2]

/-- **Results that come in turn come in time**, as long as a circuit that has opened stays
open for some time. -/
theorem IsKept.settlesInTime (h : s.IsKept config) (hreset : 0 < config.resetAfterMs)
    (hs' : s.step config a = some s') (hturn : s.InTurn config a) : s.SettlesInTime config a := by
  cases a with
  | wait ms => trivial
  | execute => trivial
  | settle operation result =>
    intro hlate
    by_cases hstate : s.breaker.state = .closed
    · exact .inl hstate
    · obtain ⟨hcloses, hkeeps⟩ := hturn s' hs' hstate
      obtain ⟨hmem, hs'⟩ := Option.ite_none_right_eq_some.mp hs'
      cases hs'
      rw [update_breaker] at hcloses hkeeps
      replace hkeeps := hkeeps operation rfl hlate
      have hfailure : config.recordsFailure result = true := by
        by_contra hsuccess
        have hclosed : (s.breaker.record config s.clock result).state = .closed := by
          rw [CircuitBreaker.record, if_neg hsuccess]
          rfl
        obtain ⟨operation', hsettled, hcurrent, -⟩ := hcloses hclosed
        cases hsettled
        exact hcurrent hlate
      rw [CircuitBreaker.record, if_pos hfailure, CircuitBreaker.recordFailure] at hkeeps
      split at hkeeps
      · next hhalf =>
        -- the circuit opens again, later than it did
        obtain ⟨probe, hprobe⟩ := h.halfOpen hhalf
        have hadmitted := (h.admitted probe hprobe.mem).2
        have hge := hprobe.admittedAt_ge
        have hclock : s.clock = s.lastOpening :=
          Option.some.inj (hkeeps.trans hprobe.openedAt_eq)
        omega
      · next hhalf =>
        have hopened : s.breaker.state = .opened := by
          cases hstate' : s.breaker.state with
          | closed => exact absurd hstate' hstate
          | opened => rfl
          | halfOpen => exact absurd hstate' hhalf
        refine .inr ⟨hopened, hfailure, ?_⟩
        dsimp only at hkeeps
        split at hkeeps
        · exact .inr hkeeps.symm
        · next hthreshold => exact .inl (Nat.not_le.mp hthreshold)

/-- A breaker that was not used yet. -/
theorem isKept_start : IsKept config {} where
  lastOpening_le := Nat.le_refl _
  admitted := nofun
  closed _ := nofun
  opened := nofun
  halfOpen := nofun

end InUse

end CircuitBreaker

end Workers

open Workers Workers.CircuitBreaker Workers.CircuitBreaker.InUse

/-- **A circuit breaker opens and probes as its states say**, in every run in which no
operation settles late: one operation probes it at a time; only an operation that was
admitted after the circuit opened, and no sooner than it may be probed, closes it; and no
other one moves the time of its opening. -/
theorem circuit_opens_and_probes {ε β : Type} {config : CircuitBreakerConfig ε}
    {actions : List (CircuitAction ε β)}
    (h : Run.EachStep (step config) (SettlesInTime config) {} actions) :
    Run.Always (step config) OneProbe {} actions
      ∧ Run.EachStep (step config) (InTurn config) {} actions := by
  refine ⟨?_, ?_⟩
  · exact h.always (fun s a s' hI hsafe hs' => hI.step hsafe hs') (fun s hI => hI.oneProbe)
      isKept_start
  · exact h.imp_of_invariant (fun s a s' hI hsafe hs' => hI.step hsafe hs')
      (fun s a s' hI hs' hsafe => hI.inTurn hsafe) isKept_start

/-- That no operation settles late is also necessary, where a circuit that has opened stays
open for some time. -/
theorem settlesInTime_of_inTurn {ε β : Type} {config : CircuitBreakerConfig ε}
    (hreset : 0 < config.resetAfterMs) {actions : List (CircuitAction ε β)}
    (h : Run.EachStep (step config) (InTurn config) {} actions) :
    Run.EachStep (step config) (SettlesInTime config) {} actions :=
  h.imp_of_invariant
    (fun _ _ _ hI hturn hs' => hI.step (hI.settlesInTime hreset hs' hturn) hs')
    (fun _ _ _ hI hs' hturn => hI.settlesInTime hreset hs' hturn) isKept_start

/-- A circuit that opens at the first failure, for a minute. -/
def firstFailureCircuit : CircuitBreakerConfig String :=
  { name := "kg-parse-worker:database-kg", failureThreshold := 1, resetAfterMs := 60_000 }

/-- An operation that is admitted at the start. -/
def firstOperation : Operation := { admittedAt := 0, openings := 0, probe := false }

/-- Of two operations, one fails. The circuit is probed a minute later, and the other
operation settles after that. -/
def settledAfterProbe : List (CircuitAction String Unit) :=
  [.execute, .execute, .settle firstOperation (.error "timeout"), .wait 60_000, .execute,
    .settle { admittedAt := 60_000, openings := 1, probe := true } (.ok ()),
    .settle firstOperation (.ok ())]

/-- The circuit is opened by the first operation, and closed by the probe. -/
theorem circuit_opens_and_probes_settledAfterProbe :
    (∃ s, Run.follow (step firstFailureCircuit) {} settledAfterProbe = some s)
      ∧ Run.Always (step firstFailureCircuit) OneProbe {} settledAfterProbe
      ∧ Run.EachStep (step firstFailureCircuit) (InTurn firstFailureCircuit) {}
        settledAfterProbe := by
  have hrun : (Run.follow (step firstFailureCircuit) {} settledAfterProbe).isSome := by
    decide +kernel
  exact ⟨Option.isSome_iff_exists.mp hrun, circuit_opens_and_probes (by decide +kernel)⟩

/-- Of two operations, one fails, and the other succeeds a second later. -/
def lateSuccess : List (CircuitAction String Unit) :=
  [.execute, .execute, .settle firstOperation (.error "timeout"), .wait 1_000,
    .settle firstOperation (.ok ())]

/-- Of two operations, one fails. The other fails a minute later, while the circuit is
probed; and the circuit is probed again another minute later. -/
def lateFailure : List (CircuitAction String Unit) :=
  [.execute, .execute, .settle firstOperation (.error "timeout"), .wait 60_000, .execute,
    .settle firstOperation (.error "timeout"), .wait 60_000, .execute]

/-- The late success closes the circuit at once; and the late failure lets two operations
probe it. -/
theorem lateResults_not_inTurn :
    ¬ Run.EachStep (step firstFailureCircuit) (InTurn firstFailureCircuit) {} lateSuccess
      ∧ ∃ s, Run.follow (step firstFailureCircuit) {} lateFailure = some s ∧ ¬ s.OneProbe := by
  refine ⟨by decide +kernel, ?_⟩
  have hrun : (Run.follow (step firstFailureCircuit) {} lateFailure).map (decide ¬ ·.OneProbe)
      = some true := by
    decide +kernel
  obtain ⟨s, hs, hprobes⟩ := Option.map_eq_some_iff.mp hrun
  exact ⟨s, hs, of_decide_eq_true hprobes⟩
