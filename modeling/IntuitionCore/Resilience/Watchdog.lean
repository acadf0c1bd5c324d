import IntuitionCore.Library.Run
import IntuitionCore.Resilience.CancellationToken

/-!
# The watchdog

A worker that hangs on a query returns no error. So each worker beats after its
batches, and a watchdog looks at the heartbeats: a worker whose last beat is too
long ago is taken to be stalled, and the token it was registered with is
cancelled. Its supervisor starts a worker again after each run of it.

The coordinator derives the registered token from the global one. The supervisor
knows nothing of it: it derives a token from the global one too, for each run,
and that is the token the worker polls. So neither of the two is derived from the
other.

Times are in milliseconds. A clock that counts them in 64 bits overflows after 292
million years, and does not here.
-/

/-- What a worker reports liveness with. -/
structure Heartbeat where
  /-- The milliseconds from `reference` to the last beat, or `neverBeaten`. -/
  lastBeatMs : ℤ
  /-- When the heartbeat was made. -/
  reference : ℕ
  deriving DecidableEq, Repr

namespace Heartbeat

/-- The last beat of a heartbeat that has not beaten. -/
def neverBeaten : ℤ := -1

def new (now : ℕ) : Heartbeat := { lastBeatMs := neverBeaten, reference := now }

/-- A beat is recorded. -/
def beat (h : Heartbeat) (now : ℕ) : Heartbeat :=
  { h with lastBeatMs := (now - h.reference : ℕ) }

/-- How long ago the last beat was, if there was one. -/
def elapsedSinceLastBeat (h : Heartbeat) (now : ℕ) : Option ℕ :=
  if h.lastBeatMs = neverBeaten then none
  else
    let nowMs : ℤ := (now - h.reference : ℕ)
    some (max (nowMs - h.lastBeatMs) 0).toNat

end Heartbeat

/-- How long a worker may be without a beat before it is taken to be stalled. -/
def stallThreshold : ℕ := 120_000

/-- How a run of a worker ends. -/
inductive RunOutcome where
  | ok
  | transient
  | fatal
  | panicked
  deriving DecidableEq, Repr

/-- A worker as it is registered with the watchdog. -/
structure WatchedWorker (Token : Type) where
  name : String
  heartbeat : Heartbeat
  cancelToken : Token
  deriving DecidableEq, Repr

/-- A watched worker, with what the watchdog and its supervisor know of it. -/
structure SupervisedWorker (Token : Type) extends WatchedWorker Token where
  /-- The watchdog takes it to be stalled, and has cancelled its token. -/
  stalled : Bool := false
  restartCount : ℕ := 0
  /-- The token that its current run polls. -/
  runToken : Option Token := none
  /-- Its supervisor has returned. -/
  stopped : Bool := false
  deriving DecidableEq, Repr

namespace SupervisedWorker

variable {Token : Type}

/-- The last beat is longer ago than the threshold. -/
def IsStale (w : SupervisedWorker Token) (now : ℕ) : Prop :=
  ∃ elapsed ∈ w.heartbeat.elapsedSinceLastBeat now, stallThreshold < elapsed

/-- What the watchdog does about a worker at a tick: whether it cancels the token,
and whether it takes the worker to be stalled from then on. -/
def inspect (w : SupervisedWorker Token) (now : ℕ) : Bool × Bool :=
  match w.heartbeat.elapsedSinceLastBeat now with
  -- the worker has time to start up
  | none => (false, w.stalled)
  | some elapsed =>
    if stallThreshold < elapsed ∧ ¬ w.stalled then (true, true)
    else if stallThreshold < elapsed then (false, w.stalled)
    -- it recovered
    else if w.stalled then (false, false)
    else (false, w.stalled)

end SupervisedWorker

/-- What the watchdog of a process is doing. -/
inductive WatchdogPhase where
  /-- Workers are registered. -/
  | registering
  | running
  | stopped
  deriving DecidableEq, Repr

/-- The coordinator's process: its tokens, its workers, and its watchdog. -/
structure WatchedProcess (World Token : Type) where
  world : World
  /-- The token of the process. -/
  globalToken : Token
  clock : ℕ := 0
  workers : List (SupervisedWorker Token) := []
  watchdog : WatchdogPhase := .registering

namespace WatchedProcess

variable {World Token : Type} (tokens : CancellationTokens World Token)

/-- What happens in the process. -/
inductive Action where
  /-- A worker is registered with the watchdog and given a supervisor. -/
  | spawn (name : String)
  | watch
  /-- The supervisor of a worker starts it. -/
  | start (i : ℕ)
  /-- The run of a worker ends. -/
  | exit (i : ℕ) (outcome : RunOutcome)
  | beat (i : ℕ)
  | wait (ms : ℕ)
  | tick
  /-- The watchdog returns after a shutdown. -/
  | unwatch
  | shutdown
  deriving DecidableEq, Repr

/-- The coordinator registers a worker with a child of the global token. -/
def spawn (p : WatchedProcess World Token) (name : String) : WatchedProcess World Token :=
  let (cancelToken, world) := tokens.childToken p.globalToken p.world
  { p with
    world
    workers := p.workers ++ [{ name, heartbeat := .new p.clock, cancelToken }] }

/-- The supervisor starts a worker with a child of the global token, unless the
process is to stop. -/
def start (p : WatchedProcess World Token) (i : ℕ) (w : SupervisedWorker Token) :
    WatchedProcess World Token :=
  if tokens.isCancelled p.world p.globalToken then
    { p with workers := p.workers.set i { w with stopped := true } }
  else
    let (runToken, world) := tokens.childToken p.globalToken p.world
    { p with
      world
      workers := p.workers.set i
        { w with restartCount := w.restartCount + 1, runToken := some runToken } }

/-- A run ends. The supervisor starts no other one after a fatal error, or if the
process is to stop. -/
def exit (p : WatchedProcess World Token) (i : ℕ) (w : SupervisedWorker Token)
    (outcome : RunOutcome) : WatchedProcess World Token :=
  let stopped := tokens.isCancelled p.world p.globalToken || outcome = .fatal
  { p with workers := p.workers.set i { w with runToken := none, stopped } }

/-- The tokens that the watchdog cancels at a tick. -/
def cancelledAtTick (p : WatchedProcess World Token) : List Token :=
  (p.workers.filter fun w => (w.inspect p.clock).1).map fun w => w.cancelToken

/-- The watchdog inspects the heartbeats of all workers. -/
def tick (p : WatchedProcess World Token) : WatchedProcess World Token :=
  { p with
    world := p.cancelledAtTick.foldl (fun world t => tokens.cancel t world) p.world
    workers := p.workers.map fun w => { w with stalled := (w.inspect p.clock).2 } }

/-- What an action does, where it is possible. -/
def step (p : WatchedProcess World Token) : Action → Option (WatchedProcess World Token)
  | .spawn name => if p.watchdog = .registering then some (p.spawn tokens name) else none
  | .watch =>
    if p.watchdog = .registering then some { p with watchdog := .running } else none
  | .start i => do
    let w ← p.workers[i]?
    if w.runToken.isNone ∧ ¬ w.stopped then some (p.start tokens i w) else none
  | .exit i outcome => do
    let w ← p.workers[i]?
    if w.runToken.isSome then some (p.exit tokens i w outcome) else none
  | .beat i => do
    let w ← p.workers[i]?
    if w.runToken.isSome then
      some { p with
        workers := p.workers.set i { w with heartbeat := w.heartbeat.beat p.clock } }
    else none
  | .wait ms => some { p with clock := p.clock + ms }
  | .tick => if p.watchdog = .running then some (p.tick tokens) else none
  | .unwatch =>
    if p.watchdog = .running ∧ tokens.isCancelled p.world p.globalToken then
      some { p with watchdog := .stopped }
    else none
  | .shutdown => some { p with world := tokens.cancel p.globalToken p.world }

/-! ## Which token is derived from which -/

/-- **How the tokens are wired**: no registered token, of the first list, has
another one derived from it, and a token that a run polls, of the second list, is
cancelled exactly if the global one is. -/
structure Wired (globalToken : Token) (world : World) (registered runs : List Token) :
    Prop where
  made_global : tokens.Made world globalToken
  made_registered : ∀ t ∈ registered, tokens.Made world t
  made_run : ∀ u ∈ runs, tokens.Made world u
  derived_run : ∀ u ∈ runs, tokens.Derived globalToken u
  isCancelled_run : ∀ u ∈ runs,
    tokens.isCancelled world u = tokens.isCancelled world globalToken
  not_derived_global : ∀ t ∈ registered, ¬ tokens.Derived t globalToken
  not_derived_run : ∀ t ∈ registered, ∀ u ∈ runs, ¬ tokens.Derived t u

namespace Wired

variable {tokens} {globalToken : Token} {world : World} {registered runs : List Token}

theorem of_subset (h : Wired tokens globalToken world registered runs)
    {registered' runs' : List Token} (hregistered : registered' ⊆ registered)
    (hruns : runs' ⊆ runs) : Wired tokens globalToken world registered' runs' where
  made_global := h.made_global
  made_registered t ht := h.made_registered t (hregistered ht)
  made_run u hu := h.made_run u (hruns hu)
  derived_run u hu := h.derived_run u (hruns hu)
  isCancelled_run u hu := h.isCancelled_run u (hruns hu)
  not_derived_global t ht := h.not_derived_global t (hregistered ht)
  not_derived_run t ht u hu := h.not_derived_run t (hregistered ht) u (hruns hu)

/-- Another token is derived from the global one. -/
theorem child (htokens : tokens.Lawful) (h : Wired tokens globalToken world registered runs) :
    Wired tokens globalToken (tokens.childToken globalToken world).2 registered runs where
  made_global := htokens.made_childToken _ _ _ h.made_global
  made_registered t ht := htokens.made_childToken _ _ _ (h.made_registered t ht)
  made_run u hu := htokens.made_childToken _ _ _ (h.made_run u hu)
  derived_run := h.derived_run
  isCancelled_run u hu := by
    rw [htokens.isCancelled_childToken _ _ _ (h.made_run u hu),
      htokens.isCancelled_childToken _ _ _ h.made_global, h.isCancelled_run u hu]
  not_derived_global := h.not_derived_global
  not_derived_run := h.not_derived_run

/-- It is registered: nothing is derived from it. -/
theorem register (htokens : tokens.Lawful)
    (h : Wired tokens globalToken world registered runs) :
    Wired tokens globalToken (tokens.childToken globalToken world).2
      ((tokens.childToken globalToken world).1 :: registered) runs :=
  { h.child htokens with
    made_registered := List.forall_mem_cons.mpr
      ⟨htokens.made_child _ _ h.made_global, (h.child htokens).made_registered⟩
    not_derived_global := List.forall_mem_cons.mpr
      ⟨htokens.not_derived_child h.made_global, h.not_derived_global⟩
    not_derived_run := List.forall_mem_cons.mpr
      ⟨fun u hu => htokens.not_derived_child (h.made_run u hu), h.not_derived_run⟩ }

/-- A run polls it: it is derived from no registered token. -/
theorem run (htokens : tokens.Lawful) (h : Wired tokens globalToken world registered runs) :
    Wired tokens globalToken (tokens.childToken globalToken world).2 registered
      ((tokens.childToken globalToken world).1 :: runs) :=
  { h.child htokens with
    made_run := List.forall_mem_cons.mpr
      ⟨htokens.made_child _ _ h.made_global, (h.child htokens).made_run⟩
    derived_run := List.forall_mem_cons.mpr
      ⟨(htokens.derived_child _ _ _).mpr (.inr (htokens.derived_self _)), h.derived_run⟩
    isCancelled_run := by
      refine List.forall_mem_cons.mpr ⟨?_, (h.child htokens).isCancelled_run⟩
      rw [htokens.isCancelled_child _ _ h.made_global,
        htokens.isCancelled_childToken _ _ _ h.made_global]
    not_derived_run := fun t ht => by
      refine List.forall_mem_cons.mpr ⟨fun hderived => ?_, h.not_derived_run t ht⟩
      obtain rfl | hderived := (htokens.derived_child _ _ _).mp hderived
      · exact htokens.not_made_child _ _ (h.made_registered _ ht)
      · exact h.not_derived_global t ht hderived }

/-- **Cancelling registered tokens cancels no other one.** -/
theorem isCancelled_foldl (htokens : tokens.Lawful)
    (h : Wired tokens globalToken world registered runs) {ts : List Token}
    (hts : ts ⊆ registered) {u : Token} (hu : u = globalToken ∨ u ∈ runs) :
    tokens.isCancelled (ts.foldl (fun w t => tokens.cancel t w) world) u
      = tokens.isCancelled world u := by
  have hcancelled := (htokens.foldl_cancel ts fun t ht => h.made_registered t (hts ht)).2 u
  refine Bool.eq_iff_iff.mpr (hcancelled.trans (or_iff_left ?_))
  rintro ⟨t, ht, hderived⟩
  obtain rfl | hu := hu
  · exact h.not_derived_global t (hts ht) hderived
  · exact h.not_derived_run t (hts ht) u hu hderived

theorem cancelRegistered (htokens : tokens.Lawful)
    (h : Wired tokens globalToken world registered runs) {ts : List Token}
    (hts : ts ⊆ registered) :
    Wired tokens globalToken (ts.foldl (fun w t => tokens.cancel t w) world) registered
      runs := by
  have hmade := (htokens.foldl_cancel ts fun t ht => h.made_registered t (hts ht)).1
  exact
    { h with
      made_global := hmade _ h.made_global
      made_registered := fun t ht => hmade t (h.made_registered t ht)
      made_run := fun u hu => hmade u (h.made_run u hu)
      isCancelled_run := fun u hu => by
        rw [h.isCancelled_foldl htokens hts (.inr hu),
          h.isCancelled_foldl htokens hts (.inl rfl), h.isCancelled_run u hu] }

theorem cancelGlobal (htokens : tokens.Lawful)
    (h : Wired tokens globalToken world registered runs) :
    Wired tokens globalToken (tokens.cancel globalToken world) registered runs := by
  have hcancelled : ∀ u, tokens.Derived globalToken u →
      tokens.isCancelled (tokens.cancel globalToken world) u := fun u hu =>
    (htokens.isCancelled_cancel _ _ u h.made_global).mpr (.inr hu)
  exact
    { h with
      made_global := htokens.made_cancel _ _ _ h.made_global
      made_registered := fun t ht => htokens.made_cancel _ _ t (h.made_registered t ht)
      made_run := fun u hu => htokens.made_cancel _ _ u (h.made_run u hu)
      isCancelled_run := fun u hu => by
        rw [hcancelled u (h.derived_run u hu), hcancelled _ (htokens.derived_self _)] }

end Wired

/-- The tokens that are registered with the watchdog. -/
def registered (p : WatchedProcess World Token) : List Token :=
  p.workers.map fun w => w.cancelToken

/-- The tokens that are polled. -/
def polled (p : WatchedProcess World Token) : List Token :=
  p.workers.filterMap SupervisedWorker.runToken

variable {tokens}

/-- A worker changes, with tokens that are wired. -/
theorem Wired.set {globalToken : Token} {world : World} {registered runs : List Token}
    (h : Wired tokens globalToken world registered runs)
    {workers : List (SupervisedWorker Token)}
    (hregistered : (workers.map fun w => w.cancelToken) ⊆ registered)
    (hruns : workers.filterMap SupervisedWorker.runToken ⊆ runs) (i : ℕ)
    {w : SupervisedWorker Token} (hcancel : w.cancelToken ∈ registered)
    (hrun : ∀ u ∈ w.runToken, u ∈ runs) :
    Wired tokens globalToken world ((workers.set i w).map fun v => v.cancelToken)
      ((workers.set i w).filterMap SupervisedWorker.runToken) := by
  refine h.of_subset (fun t ht => ?_) fun u hu => ?_
  · obtain ⟨v, hv, rfl⟩ := List.mem_map.mp ht
    obtain hv | rfl := List.mem_or_eq_of_mem_set hv
    · exact hregistered (List.mem_map_of_mem hv)
    · exact hcancel
  · obtain ⟨v, hv, hvu⟩ := List.mem_filterMap.mp hu
    obtain hv | rfl := List.mem_or_eq_of_mem_set hv
    · exact hruns (List.mem_filterMap.mpr ⟨v, hv, hvu⟩)
    · exact hrun u hvu

/-- The tokens of a process are wired. -/
def IsWired (tokens : CancellationTokens World Token) (p : WatchedProcess World Token) : Prop :=
  Wired tokens p.globalToken p.world p.registered p.polled

section Step

variable {p p' : WatchedProcess World Token} {i : ℕ} {w : SupervisedWorker Token}

theorem cancelToken_mem (hw : p.workers[i]? = some w) : w.cancelToken ∈ p.registered :=
  List.mem_map_of_mem (List.mem_of_getElem? hw)

theorem runToken_mem (hw : p.workers[i]? = some w) : ∀ u ∈ w.runToken, u ∈ p.polled :=
  fun _ hu => List.mem_filterMap.mpr ⟨w, List.mem_of_getElem? hw, hu⟩

theorem cancelledAtTick_subset : p.cancelledAtTick ⊆ p.registered :=
  List.map_subset _ (List.filter_subset_self _)

theorem IsWired.spawn (htokens : tokens.Lawful) (h : p.IsWired tokens) (name : String) :
    (p.spawn tokens name).IsWired tokens := by
  have hwired := h.register htokens
  refine hwired.of_subset (fun t ht => ?_) fun u hu => ?_
  · simpa [registered, WatchedProcess.spawn, or_comm] using ht
  · simpa [polled, WatchedProcess.spawn] using hu

theorem IsWired.start (htokens : tokens.Lawful) (h : p.IsWired tokens)
    (hw : p.workers[i]? = some w) : (p.start tokens i w).IsWired tokens := by
  have hcancel := cancelToken_mem hw
  have hrun := runToken_mem hw
  unfold WatchedProcess.start
  split
  · exact h.set (List.Subset.refl _) (List.Subset.refl _) i hcancel hrun
  · refine (h.run htokens).set (List.Subset.refl _) (List.subset_cons_self _ _) i hcancel
      fun u hu => ?_
    cases hu
    exact List.mem_cons_self

theorem IsWired.tick (htokens : tokens.Lawful) (h : p.IsWired tokens) :
    (p.tick tokens).IsWired tokens := by
  have hregistered : (p.tick tokens).registered = p.registered := by
    simp [registered, WatchedProcess.tick, Function.comp_def]
  have hpolled : (p.tick tokens).polled = p.polled := by
    simp [polled, WatchedProcess.tick, List.filterMap_map]
  unfold IsWired
  rw [hregistered, hpolled]
  exact h.cancelRegistered htokens cancelledAtTick_subset

/-- **Whatever happens, the tokens stay wired.** -/
theorem IsWired.step (htokens : tokens.Lawful) (h : p.IsWired tokens) {a : Action}
    (hstep : p.step tokens a = some p') : p'.IsWired tokens := by
  cases a with
  | spawn name =>
    obtain ⟨-, ⟨⟩⟩ := Option.ite_none_right_eq_some.mp hstep
    exact h.spawn htokens name
  | watch =>
    obtain ⟨-, ⟨⟩⟩ := Option.ite_none_right_eq_some.mp hstep
    exact h
  | start i =>
    obtain ⟨w, hw, hstep⟩ := Option.bind_eq_some_iff.mp hstep
    obtain ⟨-, ⟨⟩⟩ := Option.ite_none_right_eq_some.mp hstep
    exact h.start htokens hw
  | exit i outcome =>
    obtain ⟨w, hw, hstep⟩ := Option.bind_eq_some_iff.mp hstep
    obtain ⟨-, ⟨⟩⟩ := Option.ite_none_right_eq_some.mp hstep
    have hcancel := cancelToken_mem hw
    exact h.set (List.Subset.refl _) (List.Subset.refl _) i hcancel nofun
  | beat i =>
    obtain ⟨w, hw, hstep⟩ := Option.bind_eq_some_iff.mp hstep
    obtain ⟨-, ⟨⟩⟩ := Option.ite_none_right_eq_some.mp hstep
    have hcancel := cancelToken_mem hw
    have hrun := runToken_mem hw
    exact h.set (List.Subset.refl _) (List.Subset.refl _) i hcancel hrun
  | wait ms =>
    cases hstep
    exact h
  | tick =>
    obtain ⟨-, ⟨⟩⟩ := Option.ite_none_right_eq_some.mp hstep
    exact h.tick htokens
  | unwatch =>
    obtain ⟨-, ⟨⟩⟩ := Option.ite_none_right_eq_some.mp hstep
    exact h
  | shutdown =>
    cases hstep
    exact h.cancelGlobal htokens

end Step

/-! ## Reaching the worker -/

variable (tokens) in
/-- **The watchdog reaches the workers it watches**: after a tick at which the last
beat of a worker is longer ago than the threshold, the token that its run polls is
cancelled. -/
def Reaches (p : WatchedProcess World Token) : Action → Prop
  | .tick => ∀ w ∈ p.workers, w.IsStale p.clock →
    ∀ u ∈ w.runToken, tokens.isCancelled (p.tick tokens).world u
  | _ => True

variable (tokens) in
/-- There is no worker to reach: the process is stopping anyway, or no worker whose
last beat is longer ago than the threshold is running. -/
def NoneToReach (p : WatchedProcess World Token) : Action → Prop
  | .tick => tokens.isCancelled p.world p.globalToken
    ∨ ∀ w ∈ p.workers, w.IsStale p.clock → w.runToken = none
  | _ => True

/-- **A tick cancels no token that is polled.** -/
theorem IsWired.isCancelled_tick (htokens : tokens.Lawful) {p : WatchedProcess World Token}
    (h : p.IsWired tokens) {u : Token} (hu : u ∈ p.polled) :
    tokens.isCancelled (p.tick tokens).world u = tokens.isCancelled p.world p.globalToken := by
  rw [← h.isCancelled_run u hu]
  exact h.isCancelled_foldl htokens cancelledAtTick_subset (.inr hu)

/-- So the watchdog reaches no worker. -/
theorem IsWired.reaches_iff (htokens : tokens.Lawful) {p : WatchedProcess World Token}
    (h : p.IsWired tokens) (a : Action) : p.Reaches tokens a ↔ p.NoneToReach tokens a := by
  cases a with
  | tick =>
    have hpolled : ∀ w ∈ p.workers, ∀ u ∈ w.runToken,
        tokens.isCancelled (p.tick tokens).world u = tokens.isCancelled p.world p.globalToken :=
      fun w hw u hu => h.isCancelled_tick htokens (List.mem_filterMap.mpr ⟨w, hw, hu⟩)
    constructor
    · intro hreaches
      refine or_iff_not_imp_left.mpr fun hrunning w hw hstale => ?_
      refine Option.eq_none_iff_forall_not_mem.mpr fun u hu => hrunning ?_
      rw [← hpolled w hw u hu]
      exact hreaches w hw hstale u hu
    · rintro (hstopping | hnone) w hw hstale u hu
      · rw [hpolled w hw u hu, hstopping]
      · simp [hnone w hw hstale] at hu
  | _ => exact Iff.rfl

end WatchedProcess

open WatchedProcess

/-- **The watchdog reaches its workers exactly where there is none to reach.**
Whatever the coordinator has spawned, and however often the supervisors have started
their workers: at each tick of a run, the token that a stalled worker polls is
cancelled then, if and only if at each tick the process is stopping anyway or no
stalled worker is running. -/
theorem watchdog_reaches_iff {World Token : Type} {tokens : CancellationTokens World Token}
    (htokens : tokens.Lawful) {world : World} {globalToken : Token}
    (hglobal : tokens.Made world globalToken) (actions : List Action) :
    Run.EachStep (step tokens) (Reaches tokens) { world, globalToken } actions
      ↔ Run.EachStep (step tokens) (NoneToReach tokens) { world, globalToken } actions := by
  have hwired : IsWired tokens { world, globalToken } :=
    ⟨hglobal, nofun, nofun, nofun, nofun, nofun, nofun⟩
  exact Run.eachStep_congr (I := IsWired tokens) (fun _ _ _ h hstep => h.step htokens hstep)
    (fun _ a _ h _ => h.reaches_iff htokens a) hwired actions

/-- A worker is restarted, beats, and hangs. -/
def hangsAfterRestart : List Action :=
  [.spawn "vault_state:pg", .watch, .start 0, .exit 0 .transient, .start 0, .beat 0,
    .wait 120_001]

/-- The root of a new tree is made. -/
theorem watchdog_reaches_iff_hangsAfterRestart :
    CancellationTokens.tree.Lawful ∧ CancellationTokens.tree.Made .new []
      ∧ (Run.EachStep (step .tree) (Reaches .tree) { world := .new, globalToken := [] }
          (hangsAfterRestart ++ [.tick])
        ↔ Run.EachStep (step .tree) (NoneToReach .tree) { world := .new, globalToken := [] }
          (hangsAfterRestart ++ [.tick])) := by
  have hroot : CancellationTokens.tree.Made .new [] := nofun
  exact ⟨CancellationTokens.tree_lawful, hroot,
    watchdog_reaches_iff CancellationTokens.tree_lawful hroot _⟩

/-- **The watchdog need not reach a worker**: its run polls another token. -/
theorem hangsAfterRestart_not_reached :
    ¬ ∀ (World Token : Type) (tokens : CancellationTokens World Token), tokens.Lawful →
      ∀ (world : World) (globalToken : Token), tokens.Made world globalToken →
        ∀ actions : List Action,
          Run.EachStep (step tokens) (Reaches tokens) { world, globalToken } actions := by
  intro h
  have hsafe := h _ _ .tree CancellationTokens.tree_lawful {} [] nofun
    (hangsAfterRestart ++ [.tick])
  let worker : SupervisedWorker (List ℕ) :=
    { name := "vault_state:pg"
      heartbeat := { lastBeatMs := 0, reference := 0 }
      cancelToken := [0]
      restartCount := 2
      runToken := some [2] }
  have hrun : (Run.follow (step .tree) { world := .new, globalToken := [] } hangsAfterRestart).map
      (fun p => (p.watchdog, p.clock, p.workers, (p.tick .tree).world.cancelled))
        = some (.running, 120_001, [worker], [[0]]) := by
    decide +kernel
  obtain ⟨p, hp, heq⟩ := Option.map_eq_some_iff.mp hrun
  simp only [Prod.mk.injEq] at heq
  obtain ⟨hwatchdog, hclock, hworkers, hcancelled⟩ := heq
  have hreaches := hsafe.safe_of_follow hp (if_pos hwatchdog)
  have hstale : worker.IsStale p.clock := by
    rw [hclock]
    exact ⟨120_001, by decide, by decide⟩
  have hreached := hreaches worker (by simp [hworkers]) hstale [2] rfl
  simp only [CancellationTokens.tree] at hreached hcancelled
  rw [hcancelled] at hreached
  exact absurd hreached (by decide)
