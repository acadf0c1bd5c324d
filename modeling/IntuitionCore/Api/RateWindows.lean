import IntuitionCore.Api.RateLimit
import IntuitionCore.Library.FixedWindow
import Mathlib.Logic.Function.Basic

/-!
# What the rate limiter lets through

The limiter keeps a window for each key it has seen, and drops those that have passed once
there are many. What it decides is what a limiter decides that has a window for every key
and never drops one: a window that has passed is as good as none.

So the decisions for a key depend on the calls for that key alone, and where its limit
stays the same, the first calls of each window are allowed, up to the limit.
-/

namespace KgApi

/-- A call of the limiter. -/
structure RateLimitCall where
  nowMs : ℕ
  key : String
  limit : Option ℤ
  deriving DecidableEq, Repr

namespace RateLimiter

/-- Count a request, with the windows pruned in some way. -/
def checkWith (prune : RateLimiter → ℕ → RateLimiter) (windows : RateLimiter) (nowMs : ℕ)
    (key : String) (limit : Option ℤ) : RateLimiter × RateLimitDecision :=
  if limit.any (· ≤ 0) then (windows, ⟨true, some 0, some 0, 0, 0⟩)
  else
    let windows := prune windows nowMs
    let entry := windows.entryOf nowMs key
    let entry := { entry with count := entry.count + 1 }
    (windows.insert key entry,
      { allowed := limit.any ((entry.count : ℤ) ≤ ·)
        limit := limit
        remaining := limit.map fun limit => max 0 (limit - entry.count)
        resetAtMs := entry.resetAtMs
        retryAfterSeconds := max 1 ((entry.resetAtMs - nowMs + 999) / 1000) })

theorem check_eq_checkWith : check = checkWith prune := rfl

/-- The limiter that never prunes. -/
def checkUnpruned : RateLimiter → ℕ → String → Option ℤ → RateLimiter × RateLimitDecision :=
  checkWith fun windows _ => windows

/-- What is decided on some calls, one after the other. -/
def decisions (check : RateLimiter → ℕ → String → Option ℤ → RateLimiter × RateLimitDecision) :
    RateLimiter → List RateLimitCall → List RateLimitDecision
  | _, [] => []
  | windows, c :: calls =>
    let (windows', decision) := check windows c.nowMs c.key c.limit
    decision :: decisions check windows' calls

/-- The calls for a key, each with what is decided on it. -/
def decisionsFor (key : String) (calls : List RateLimitCall) :
    List (RateLimitCall × RateLimitDecision) :=
  (calls.zip (decisions check ∅ calls)).filter fun p => p.1.key = key

/-! ## A window for every key -/

/-- What is decided on a call that is counted in a window. -/
def decisionOf (c : RateLimitCall) (w : FixedWindow) : RateLimitDecision where
  allowed := c.limit.any ((w.used : ℤ) ≤ ·)
  limit := c.limit
  remaining := c.limit.map fun limit => max 0 (limit - w.used)
  resetAtMs := w.ends
  retryAfterSeconds := max 1 ((w.ends - c.nowMs + 999) / 1000)

/-- What is decided by a limiter that has a window for every key. -/
def decisionsOf : (String → FixedWindow) → List RateLimitCall → List RateLimitDecision
  | _, [] => []
  | s, c :: calls =>
    if c.limit.any (· ≤ 0) then ⟨true, some 0, some 0, 0, 0⟩ :: decisionsOf s calls
    else
      let w := (s c.key).hit windowMs c.nowMs
      decisionOf c w :: decisionsOf (Function.update s c.key w) calls

/-- A window that has passed at every time. -/
def passed : String → FixedWindow := fun _ => ⟨0, 0⟩

/-- The windows a limiter keeps decide as those of every key do, from a time on. -/
def Refines (windows : RateLimiter) (s : String → FixedWindow) (since : ℕ) : Prop :=
  ∀ nowMs ≥ since, ∀ key, windows.entryOf nowMs key
    = ⟨((s key).current windowMs nowMs).used, ((s key).current windowMs nowMs).ends⟩

/-- A way to prune that no later call can tell. -/
def Invisible (prune : RateLimiter → ℕ → RateLimiter) : Prop :=
  ∀ windows nowMs, ∀ later ≥ nowMs, ∀ key,
    (prune windows nowMs).entryOf later key = windows.entryOf later key

variable {prune' : RateLimiter → ℕ → RateLimiter} {windows : RateLimiter}
  {s : String → FixedWindow} {since nowMs : ℕ} {key : String} {calls : List RateLimitCall}

/-- **Pruning is invisible**: only windows that have passed are dropped. -/
theorem invisible_prune : Invisible prune := by
  intro windows nowMs later hlater key
  unfold prune
  split
  · rfl
  · unfold entryOf
    rw [Table.lookup_deleteRows]
    cases windows.lookup key with
    | none => rfl
    | some entry =>
      by_cases hpassed : entry.resetAtMs ≤ nowMs
      · rw [Option.filter_some, if_neg (by simpa using hpassed)]
        exact (if_pos (hpassed.trans hlater)).symm
      · rw [Option.filter_some, if_pos (by simpa using hpassed)]

theorem invisible_self : Invisible fun windows _ => windows := fun _ _ _ _ _ => rfl

/-- A request that is counted changes the window of its key. -/
theorem entryOf_insert (entry : WindowEntry) (key' : String) :
    entryOf (windows.insert key entry) nowMs key'
      = if key' = key then (if entry.resetAtMs ≤ nowMs then ⟨0, nowMs + windowMs⟩ else entry)
        else windows.entryOf nowMs key' := by
  unfold entryOf
  by_cases h : key' = key
  · rw [if_pos h, h, Finmap.lookup_insert]
  · rw [if_neg h, Finmap.lookup_insert_of_ne _ h]

/-- **A limiter decides as one with a window for every key**, and keeps doing so. -/
theorem Refines.check (hprune : Invisible prune') (h : Refines windows s since)
    {c : RateLimitCall} (hc : since ≤ c.nowMs) (hlimit : ¬ c.limit.any (· ≤ 0)) :
    Refines (checkWith prune' windows c.nowMs c.key c.limit).1
        (Function.update s c.key ((s c.key).hit windowMs c.nowMs)) c.nowMs
      ∧ (checkWith prune' windows c.nowMs c.key c.limit).2
        = decisionOf c ((s c.key).hit windowMs c.nowMs) := by
  have hentry := (hprune windows c.nowMs c.nowMs le_rfl c.key).trans (h c.nowMs hc c.key)
  unfold checkWith
  rw [if_neg hlimit]
  dsimp only
  rw [hentry]
  refine ⟨fun later hlater key => ?_, rfl⟩
  rw [entryOf_insert]
  by_cases hkey : key = c.key
  · rw [if_pos hkey, hkey, Function.update_self]
    show (if ((s c.key).hit windowMs c.nowMs).ends ≤ later then ⟨0, later + windowMs⟩
      else ⟨((s c.key).hit windowMs c.nowMs).used, ((s c.key).hit windowMs c.nowMs).ends⟩ :
        WindowEntry) = _
    generalize (s c.key).hit windowMs c.nowMs = w
    unfold FixedWindow.current
    split <;> rfl
  · rw [if_neg hkey, Function.update_of_ne hkey, hprune _ _ _ hlater]
    exact h later (hc.trans hlater) key

/-- **What a limiter decides is what is decided with a window for every key.** -/
theorem decisions_eq (hprune : Invisible prune') (h : Refines windows s since)
    (hcalls : calls.Pairwise fun c d => c.nowMs ≤ d.nowMs)
    (hsince : ∀ c ∈ calls, since ≤ c.nowMs) :
    decisions (checkWith prune') windows calls = decisionsOf s calls := by
  induction calls generalizing windows s since with
  | nil => rfl
  | cons c calls ih =>
    obtain ⟨hfirst, hcalls⟩ := List.pairwise_cons.mp hcalls
    obtain ⟨hc, hsince⟩ := List.forall_mem_cons.mp hsince
    rw [decisions, decisionsOf]
    by_cases hlimit : c.limit.any (· ≤ 0)
    · have hsame : checkWith prune' windows c.nowMs c.key c.limit
          = (windows, ⟨true, some 0, some 0, 0, 0⟩) := if_pos hlimit
      rw [if_pos hlimit, hsame]
      exact congrArg (_ :: ·) (ih h hcalls hsince)
    · obtain ⟨hrefines, hdecision⟩ := h.check hprune hc hlimit
      rw [if_neg hlimit]
      dsimp only
      rw [hdecision, ih hrefines hcalls hfirst]

theorem refines_passed : Refines ∅ passed 0 := by
  intro nowMs _ key
  have hpassed : (passed key).current windowMs nowMs = ⟨0, nowMs + windowMs⟩ :=
    if_pos (Nat.zero_le nowMs)
  rw [hpassed]
  rfl

/-! ## The calls for a key -/

/-- **The calls for a key are decided as if there were no others.** -/
theorem decisionsOf_filter (key : String) (calls : List RateLimitCall)
    {s s' : String → FixedWindow} (hs : s key = s' key) :
    ((calls.zip (decisionsOf s calls)).filter fun p => p.1.key = key)
      = (calls.filter fun c => c.key = key).zip
          (decisionsOf s' (calls.filter fun c => c.key = key)) := by
  induction calls generalizing s s' with
  | nil => rfl
  | cons c calls ih =>
    rw [decisionsOf]
    by_cases hkey : c.key = key
    · rw [List.filter_cons_of_pos (by simpa using hkey), decisionsOf]
      by_cases hlimit : c.limit.any (· ≤ 0)
      · rw [if_pos hlimit, if_pos hlimit, List.zip_cons_cons, List.zip_cons_cons,
          List.filter_cons_of_pos (by simpa using hkey), ih hs]
      · rw [if_neg hlimit, if_neg hlimit]
        dsimp only
        rw [List.zip_cons_cons, List.zip_cons_cons,
          List.filter_cons_of_pos (by simpa using hkey), hkey, hs]
        exact congrArg (_ :: ·) (ih (by rw [Function.update_self, Function.update_self]))
    · rw [List.filter_cons_of_neg (by simpa using hkey)]
      by_cases hlimit : c.limit.any (· ≤ 0)
      · rw [if_pos hlimit, List.zip_cons_cons, List.filter_cons_of_neg (by simpa using hkey),
          ih hs]
      · rw [if_neg hlimit]
        dsimp only
        rw [List.zip_cons_cons, List.filter_cons_of_neg (by simpa using hkey)]
        exact ih (by rw [Function.update_of_ne (Ne.symm hkey), hs])

/-- **Where a key keeps its limit, its calls are counted in its windows.** -/
theorem zip_decisionsOf {limit : ℤ} (hpos : 0 < limit)
    (h : ∀ c ∈ calls, c.key = key ∧ c.limit = some limit) :
    calls.zip (decisionsOf s calls)
      = (calls.zip (FixedWindow.hits windowMs (s key) (calls.map RateLimitCall.nowMs))).map
          fun q => (q.1, decisionOf q.1 q.2) := by
  induction calls generalizing s with
  | nil => rfl
  | cons c calls ih =>
    obtain ⟨⟨hkey, hlimit⟩, h⟩ := List.forall_mem_cons.mp h
    have hcounted : ¬ c.limit.any (· ≤ 0) := by
      rw [hlimit]
      simpa using hpos
    rw [decisionsOf, if_neg hcounted]
    dsimp only
    rw [List.zip_cons_cons, ih h, hkey, Function.update_self]
    rfl

/-- The calls that are decided in a window. -/
def ofWindow (resetAtMs : ℕ) (ps : List (RateLimitCall × RateLimitDecision)) :
    List (RateLimitCall × RateLimitDecision) :=
  ps.filter fun p => p.2.resetAtMs = resetAtMs

/-- The windows of a key let through what its limit allows. -/
structure Enforces (limit : ℤ) (ps : List (RateLimitCall × RateLimitDecision)) : Prop where
  /-- A call is in its window. -/
  during : ∀ p ∈ ps, p.1.nowMs < p.2.resetAtMs ∧ p.2.resetAtMs ≤ p.1.nowMs + windowMs
  /-- Windows do not overlap. -/
  apart : ps.Pairwise fun p q =>
    q.2.resetAtMs = p.2.resetAtMs ∨ p.2.resetAtMs + windowMs ≤ q.2.resetAtMs
  /-- The first calls of a window are allowed, up to the limit, and no others. -/
  firsts : ∀ resetAtMs, ∃ n, (ofWindow resetAtMs ps).map (·.2.allowed)
    = (List.range n).map fun i : ℕ => decide ((i : ℤ) < limit)
  /-- So a window allows no more calls than its limit. -/
  atMost : ∀ resetAtMs, (((ofWindow resetAtMs ps).filter (·.2.allowed)).length : ℤ) ≤ limit

/-- No more numbers than a limit are below it. -/
theorem countP_range_lt {limit : ℤ} (h : 0 ≤ limit) (n : ℕ) :
    (((List.range n).countP fun i : ℕ => decide ((i : ℤ) < limit) : ℕ) : ℤ) ≤ limit := by
  induction n with
  | zero => exact h
  | succ n ih =>
    rw [List.range_succ, List.countP_append]
    by_cases hn : (n : ℤ) < limit
    · have hle := List.countP_le_length (p := fun i : ℕ => decide ((i : ℤ) < limit))
        (l := List.range n)
      rw [List.length_range] at hle
      rw [List.countP_singleton, if_pos (by simpa using hn)]
      omega
    · rw [List.countP_singleton, if_neg (by simpa using hn)]
      exact ih

/-- **A window allows no more than its limit**, where it allows its first calls. -/
theorem length_allowed_le {limit : ℤ} (h : 0 ≤ limit)
    {ps : List (RateLimitCall × RateLimitDecision)} {n : ℕ}
    (hps : ps.map (·.2.allowed) = (List.range n).map fun i : ℕ => decide ((i : ℤ) < limit)) :
    ((ps.filter (·.2.allowed)).length : ℤ) ≤ limit := by
  have hcount : (ps.filter (·.2.allowed)).length
      = (List.range n).countP fun i : ℕ => decide ((i : ℤ) < limit) := by
    rw [← List.countP_eq_length_filter]
    have := congrArg (List.countP id) hps
    rwa [List.countP_map, List.countP_map] at this
  rw [hcount]
  exact countP_range_lt h n

/-- **The windows of a key enforce its limit.** -/
theorem enforces_zip_decisionsOf {limit : ℤ} (hpos : 0 < limit)
    (h : ∀ c ∈ calls, c.key = key ∧ c.limit = some limit)
    (hcalls : calls.Pairwise fun c d => c.nowMs ≤ d.nowMs) :
    Enforces limit (calls.zip (decisionsOf passed calls)) := by
  have hwindow : 0 < windowMs := by decide
  rw [zip_decisionsOf hpos h]
  set times := calls.map RateLimitCall.nowMs with htimes
  have hzip : (calls.zip (FixedWindow.hits windowMs (passed key) times)).map Prod.snd
      = FixedWindow.hits windowMs (passed key) times :=
    List.map_snd_zip (by rw [FixedWindow.length_hits, htimes, List.length_map])
  have hfirsts : ∀ resetAtMs, ∃ n, (ofWindow resetAtMs
        ((calls.zip (FixedWindow.hits windowMs (passed key) times)).map
          fun q => (q.1, decisionOf q.1 q.2))).map (·.2.allowed)
      = (List.range n).map fun i : ℕ => decide ((i : ℤ) < limit) := by
    intro resetAtMs
    obtain ⟨n, hn⟩ := FixedWindow.used_hits hwindow (passed key) times resetAtMs
    have hallowed : ∀ q ∈ (calls.zip (FixedWindow.hits windowMs (passed key) times)).filter
        fun q => q.2.ends = resetAtMs,
        (decisionOf q.1 q.2).allowed = decide ((q.2.used : ℤ) ≤ limit) := by
      intro q hq
      have hc := h q.1 (List.of_mem_zip (List.mem_of_mem_filter hq)).1
      show q.1.limit.any _ = _
      rw [hc.2]
      rfl
    refine ⟨n, ?_⟩
    rw [ofWindow, List.filter_map, List.map_map]
    refine (List.map_congr_left hallowed).trans ?_
    rw [← hzip, List.filter_map, List.map_map, show (passed key).used = 0 from rfl, ite_self,
      Nat.zero_add, List.range'_eq_map_range] at hn
    have hused := congrArg (List.map fun u : ℕ => decide ((u : ℤ) ≤ limit)) hn
    rw [List.map_map, List.map_map] at hused
    refine hused.trans (List.map_congr_left fun i _ => ?_)
    exact decide_eq_decide.mpr (by push_cast; omega)
  constructor
  · intro p hp
    obtain ⟨q, hq, rfl⟩ := List.mem_map.mp hp
    have hmem : (q.1.nowMs, q.2) ∈ times.zip (FixedWindow.hits windowMs (passed key) times) := by
      rw [htimes, List.zip_map_left]
      exact List.mem_map_of_mem hq
    refine FixedWindow.mem_zip_hits hwindow ?_ ?_ hmem
    · exact List.pairwise_map.mpr hcalls
    · exact fun now _ => Nat.zero_le _
  · have hapart := FixedWindow.pairwise_hits windowMs (passed key) times
    rw [← hzip] at hapart
    exact List.pairwise_map.mpr (List.pairwise_map.mp hapart)
  · exact hfirsts
  · intro resetAtMs
    obtain ⟨n, hn⟩ := hfirsts resetAtMs
    exact length_allowed_le hpos.le hn

/-- **The limiter enforces its windows**: for calls whose times do not decrease, it decides
as the limiter that never prunes, each key is decided as if there were no other, and where a
key keeps its limit its windows enforce it. -/
theorem decisions_check (calls : List RateLimitCall)
    (hcalls : calls.Pairwise fun c d => c.nowMs ≤ d.nowMs) :
    decisions check ∅ calls = decisions checkUnpruned ∅ calls
      ∧ ∀ key,
        decisionsFor key calls = (calls.filter fun c => c.key = key).zip
            (decisions check ∅ (calls.filter fun c => c.key = key))
          ∧ ∀ limit > 0, (∀ c ∈ calls, c.key = key → c.limit = some limit) →
              Enforces limit (decisionsFor key calls) := by
  have hcheck : ∀ calls : List RateLimitCall, calls.Pairwise (fun c d => c.nowMs ≤ d.nowMs) →
      decisions check ∅ calls = decisionsOf passed calls := by
    intro calls hcalls
    rw [check_eq_checkWith]
    exact decisions_eq invisible_prune refines_passed hcalls fun _ _ => Nat.zero_le _
  have hunpruned : decisions checkUnpruned ∅ calls = decisionsOf passed calls :=
    decisions_eq invisible_self refines_passed hcalls fun _ _ => Nat.zero_le _
  refine ⟨(hcheck calls hcalls).trans hunpruned.symm, fun key => ?_⟩
  have hown : (calls.filter fun c => c.key = key).Pairwise fun c d => c.nowMs ≤ d.nowMs :=
    hcalls.filter _
  have hfor : decisionsFor key calls = (calls.filter fun c => c.key = key).zip
      (decisionsOf passed (calls.filter fun c => c.key = key)) := by
    rw [decisionsFor, hcheck calls hcalls]
    exact decisionsOf_filter key calls rfl
  refine ⟨by rw [hfor, hcheck _ hown], fun limit hpos hlimit => ?_⟩
  have hcalls' : ∀ c ∈ calls.filter fun c => c.key = key,
      c.key = key ∧ c.limit = some limit := by
    intro c hc
    obtain ⟨hmem, hkey⟩ := List.mem_filter.mp hc
    exact ⟨of_decide_eq_true hkey, hlimit c hmem (of_decide_eq_true hkey)⟩
  rw [hfor]
  exact enforces_zip_decisionsOf hpos hcalls' hown

/-- Two calls a second apart, of one key that may make one. -/
theorem decisions_check_twoCalls :
    Enforces 1 (decisionsFor "key:a" [⟨1000, "key:a", some 1⟩, ⟨2000, "key:a", some 1⟩]) :=
  ((decisions_check [⟨1000, "key:a", some 1⟩, ⟨2000, "key:a", some 1⟩] (by decide)).2 "key:a").2
    1 (by decide) (by decide)

end RateLimiter

end KgApi
