import IntuitionCore.Library.OrderedMap

/-!
# Provider plans, and what aliases add to them

A node is enriched by providers, each of which is asked with the identifiers that it knows
the node by: hints of some kind, with a value. The plan of a node is made for its primary
IID, and extended by the plans of its other IIDs, its aliases. What the primary plan says
stays; an alias whose hint has another value than one of this kind that was there is
overruled, and the hint is listed as dropped.

The extension keeps hints in a map. What reads the plan collects them in a plain object,
and such an object has properties of its own: a hint of the kind `constructor` is taken for
one that contradicts another.
-/

structure SemanticContractProvenance where
  producer : String
  version : String
  specificationVersion : Option String := none
  deriving DecidableEq, Repr

/-- What a provider may know a node by. -/
structure IdentityProviderHint where
  kind : String
  value : String
  deriving DecidableEq, Repr

structure IdentityProviderTarget where
  provider : String
  capabilities : List String
  identifierHints : List IdentityProviderHint
  deriving DecidableEq, Repr

inductive IdentityProviderPlanStatus where
  | planned
  | unsupported
  deriving DecidableEq, Repr

structure IdentityProviderPlan where
  status : IdentityProviderPlanStatus
  targets : List IdentityProviderTarget
  provenance : SemanticContractProvenance
  deriving DecidableEq, Repr

/-- A hint of an alias that another value was kept instead of. -/
structure DroppedAliasHint extends IdentityProviderHint where
  iid : String
  keptValue : String
  deriving DecidableEq, Repr

namespace ProviderPlans

inductive PlanError where
  | workerConfiguration (message : String)
  | error (message : String)
  deriving DecidableEq, Repr

/-- What two values of one kind are refused with. -/
def conflicting (kind : String) : PlanError :=
  .error s!"IID provider plan supplied conflicting values for identifier hint \"{kind}\"."

/-! ## The extension -/

/-- The targets and the hints that were merged so far. -/
structure Merge where
  /-- Each target under its provider. -/
  targets : OrderedMap String IdentityProviderTarget := {}
  /-- The value of each kind. -/
  hints : OrderedMap String String := {}

/-- A hint of the primary plan is noted. -/
def notePrimaryHint (hints : OrderedMap String String) (hint : IdentityProviderHint) :
    Except PlanError (OrderedMap String String) :=
  if ∃ value ∈ hints.get? hint.kind, value ≠ hint.value then throw (conflicting hint.kind)
  else return hints.set hint.kind hint.value

/-- The target of a provider, with the hints of another one if it is there already. -/
def joinedTarget (previous : Option IdentityProviderTarget) (target : IdentityProviderTarget) :
    IdentityProviderTarget :=
  match previous with
  | some previous =>
    { previous with identifierHints := previous.identifierHints ++ target.identifierHints }
  | none => target

/-- A target of the primary plan. -/
def mergePrimaryTarget (s : Merge) (target : IdentityProviderTarget) : Except PlanError Merge := do
  let hints ← target.identifierHints.foldlM notePrimaryHint s.hints
  return {
    targets := s.targets.set target.provider (joinedTarget (s.targets.get? target.provider) target)
    hints }

/-- The hints of an alias that were looked at. The text of a hint, under which it is remembered
when it was dropped, is that of no other hint. -/
structure HintPass where
  hints : OrderedMap String String
  accepted : List IdentityProviderHint := []
  dropped : List IdentityProviderHint := []
  droppedAliasHints : List DroppedAliasHint

/-- A hint of an alias is accepted, unless another value of its kind is there. -/
def passHint (iid : String) (s : HintPass) (hint : IdentityProviderHint) : HintPass :=
  match s.hints.get? hint.kind with
  | some keptValue =>
    if keptValue ≠ hint.value then
      { s with
        droppedAliasHints :=
          if hint ∈ s.dropped then s.droppedAliasHints
          else s.droppedAliasHints ++ [{ toIdentityProviderHint := hint, iid, keptValue }]
        dropped := s.dropped ++ [hint] }
    else { s with hints := s.hints.set hint.kind hint.value, accepted := s.accepted ++ [hint] }
  | none => { s with hints := s.hints.set hint.kind hint.value, accepted := s.accepted ++ [hint] }

/-- Hints under their kinds, those that come later over those before. -/
def mergeHints (previous accepted : List IdentityProviderHint) : List IdentityProviderHint :=
  (accepted.foldl (fun merged hint => merged.set hint.kind hint)
    (OrderedMap.index IdentityProviderHint.kind previous)).values

/-- What was merged so far, and what the alias that is being merged had dropped. -/
structure AliasPass extends Merge where
  dropped : List IdentityProviderHint := []
  droppedAliasHints : List DroppedAliasHint := []

/-- The target of a provider, which may be there already, with the hints that were accepted. -/
def mergedTarget (previous : Option IdentityProviderTarget) (target : IdentityProviderTarget)
    (accepted : List IdentityProviderHint) : IdentityProviderTarget :=
  { previous.getD target with
    identifierHints :=
      mergeHints ((previous.map IdentityProviderTarget.identifierHints).getD []) accepted }

/-- A target of an alias. -/
def mergeAliasTarget (iid : String) (s : AliasPass) (target : IdentityProviderTarget) :
    AliasPass :=
  let pass := target.identifierHints.foldl (passHint iid)
    { hints := s.hints, dropped := s.dropped, droppedAliasHints := s.droppedAliasHints }
  { targets := s.targets.set target.provider
      (mergedTarget (s.targets.get? target.provider) target pass.accepted)
    hints := pass.hints
    dropped := pass.dropped
    droppedAliasHints := pass.droppedAliasHints }

/-- All that the loop over the aliases changes. -/
structure AliasMerge extends Merge where
  provenance : Option SemanticContractProvenance
  skippedAliasIids : ℕ := 0
  droppedAliasHints : List DroppedAliasHint := []

/-- An alias is merged, if it can be resolved and is not the primary IID. -/
def mergeAlias (primaryIid : Option String) (resolveAlias : String → Option IdentityProviderPlan)
    (s : AliasMerge) (iid : String) : AliasMerge :=
  if primaryIid = some iid then s else
  match resolveAlias iid with
  | none => { s with skippedAliasIids := s.skippedAliasIids + 1 }
  | some plan =>
    let pass := plan.targets.foldl (mergeAliasTarget iid)
      { toMerge := s.toMerge, droppedAliasHints := s.droppedAliasHints }
    { s with
      toMerge := pass.toMerge
      provenance := s.provenance <|> some plan.provenance
      droppedAliasHints := pass.droppedAliasHints }

structure ExtendInput where
  primaryPlan : Option IdentityProviderPlan := none
  primaryIid : Option String := none
  aliasIids : List String
  /-- There is none without an inspection of IIDs. -/
  resolveAlias : Option (String → Option IdentityProviderPlan)

structure Extended where
  providerPlan : Option IdentityProviderPlan
  skippedAliasIids : ℕ
  droppedAliasHints : List DroppedAliasHint
  deriving DecidableEq, Repr

/-- The targets of a plan that may be missing. -/
def targetsOf (plan : Option IdentityProviderPlan) : List IdentityProviderTarget :=
  (plan.map IdentityProviderPlan.targets).getD []

/-- The members of a set, in the order in which they came. -/
def newSet (values : List String) : List String := (OrderedMap.index id values).keys

def extendProviderPlanWithAliases (input : ExtendInput) : Except PlanError Extended := do
  let some resolveAlias := input.resolveAlias
    | throw (.workerConfiguration
        "Alias enrichment requires injected IID inspection and registry adapters.")
  let primary ← (targetsOf input.primaryPlan).foldlM mergePrimaryTarget {}
  let s := (newSet input.aliasIids).foldl (mergeAlias input.primaryIid resolveAlias)
    { toMerge := primary
      provenance := input.primaryPlan.map IdentityProviderPlan.provenance }
  return {
    providerPlan := match s.provenance with
      | some provenance => some
          { status := if s.targets.keys = [] then .unsupported else .planned
            targets := s.targets.values
            provenance }
      | none => input.primaryPlan
    skippedAliasIids := s.skippedAliasIids
    droppedAliasHints := s.droppedAliasHints }

/-! ## What reads a plan -/

/-- The names of the properties that every object inherits. -/
def objectPrototype : List String :=
  ["constructor", "__defineGetter__", "__defineSetter__", "hasOwnProperty", "__lookupGetter__",
    "__lookupSetter__", "isPrototypeOf", "propertyIsEnumerable", "toString", "valueOf",
    "__proto__", "toLocaleString"]

/-- A hint is collected, unless the property of its kind has another value. What an object
inherits is not a text, so it is another value than that of any hint. -/
def collectHint (identifiers : OrderedMap String String) (hint : IdentityProviderHint) :
    Except PlanError (OrderedMap String String) :=
  match identifiers.get? hint.kind with
  | some existing =>
    if existing ≠ hint.value then throw (conflicting hint.kind)
    else return identifiers.set hint.kind hint.value
  | none =>
    if hint.kind ∈ objectPrototype then throw (conflicting hint.kind)
    else return identifiers.set hint.kind hint.value

/-- The hints of all targets, in order. -/
def hintsOf (targets : List IdentityProviderTarget) : List IdentityProviderHint :=
  targets.flatMap IdentityProviderTarget.identifierHints

def collectIdentityIdentifierHints (plan : Option IdentityProviderPlan) :
    Except PlanError (OrderedMap String String) :=
  (hintsOf (targetsOf plan)).foldlM collectHint {}

/-! ## What a merge keeps -/

/-- No kind has two values. -/
def NoConflict (hints : List IdentityProviderHint) : Prop :=
  ∀ h ∈ hints, ∀ h' ∈ hints, h.kind = h'.kind → h.value = h'.value

/-- The first value of a kind. -/
def firstValue (hints : List IdentityProviderHint) (kind : String) : Option String :=
  (hints.find? fun h => h.kind = kind).map IdentityProviderHint.value

variable {hints hints' : OrderedMap String String} {l l' : List IdentityProviderHint}
  {hint : IdentityProviderHint} {iid kind : String}

theorem firstValue_append (l l' : List IdentityProviderHint) (kind : String) :
    firstValue (l ++ l') kind = (firstValue l kind).or (firstValue l' kind) := by
  unfold firstValue
  rw [List.find?_append, Option.map_or]

theorem firstValue_singleton (hint : IdentityProviderHint) (kind : String) :
    firstValue [hint] kind = if hint.kind = kind then some hint.value else none := by
  unfold firstValue
  by_cases hk : hint.kind = kind <;> simp [hk]

theorem firstValue_of_mem (h : NoConflict l) (hmem : hint ∈ l) :
    firstValue l hint.kind = some hint.value := by
  unfold firstValue
  cases hfind : l.find? fun h => h.kind = hint.kind with
  | none => exact absurd (List.find?_eq_none.mp hfind hint hmem) (by simp)
  | some found =>
    have hkind : found.kind = hint.kind := by simpa using List.find?_some hfind
    exact congrArg some (h found (List.mem_of_find?_eq_some hfind) hint hmem hkind)

theorem exists_of_firstValue {value : String} (h : firstValue l kind = some value) :
    { kind, value } ∈ l := by
  obtain ⟨hint, hfind, rfl⟩ := Option.map_eq_some_iff.mp h
  have hkind : hint.kind = kind := by simpa using List.find?_some hfind
  rw [← hkind]
  exact List.mem_of_find?_eq_some hfind

theorem firstValue_eq_none : firstValue l kind = none ↔ ∀ h ∈ l, h.kind ≠ kind := by
  simp [firstValue]

/-- Setting the first value of a kind, or setting it again. -/
theorem get?_set_or (h : ∀ v ∈ hints.get? hint.kind, v = hint.value) (kind : String) :
    (hints.set hint.kind hint.value).get? kind
      = (hints.get? kind).or (firstValue [hint] kind) := by
  rw [OrderedMap.get?_set, firstValue_singleton]
  by_cases hk : kind = hint.kind
  · subst hk
    rw [if_pos rfl, if_pos rfl]
    cases hget : hints.get? hint.kind with
    | none => rfl
    | some v => exact congrArg some (h v hget).symm
  · rw [if_neg hk, if_neg (Ne.symm hk), Option.or_none]

/-- **The hints of an alias that were looked at.** -/
structure Passed (iid : String) (start : HintPass) (l : List IdentityProviderHint) (s : HintPass) :
    Prop where
  first : ∀ kind, s.hints.get? kind = (start.hints.get? kind).or (firstValue l kind)
  /-- A kind that was not there is that of a hint that was accepted. -/
  held : ∀ kind value, s.hints.get? kind = some value →
    start.hints.get? kind = some value ∨ { kind, value } ∈ s.accepted
  accepted : ∀ h ∈ s.accepted, h ∈ l ∧ s.hints.get? h.kind = some h.value
  looked : ∀ h ∈ l, h ∈ s.accepted ∨ h ∈ s.dropped
  /-- What was dropped of this alias is what is listed of it. -/
  listed : ∀ h, h ∈ s.dropped
    ↔ ∃ d ∈ s.droppedAliasHints, d.iid = iid ∧ d.toIdentityProviderHint = h
  keptValue : ∀ d ∈ s.droppedAliasHints, s.hints.get? d.kind = some d.keptValue
  once : (s.droppedAliasHints.map fun d => (d.iid, d.toIdentityProviderHint)).Nodup
  iids : ∀ d ∈ s.droppedAliasHints, d ∈ start.droppedAliasHints ∨ d.iid = iid
  grows : ∀ d ∈ start.droppedAliasHints, d ∈ s.droppedAliasHints

/-- What is known before the hints of a target are looked at. -/
structure Ready (iid : String) (start : HintPass) : Prop where
  accepted : start.accepted = []
  listed : ∀ h, h ∈ start.dropped
    ↔ ∃ d ∈ start.droppedAliasHints, d.iid = iid ∧ d.toIdentityProviderHint = h
  keptValue : ∀ d ∈ start.droppedAliasHints, start.hints.get? d.kind = some d.keptValue
  once : (start.droppedAliasHints.map fun d => (d.iid, d.toIdentityProviderHint)).Nodup

theorem Ready.passed {start : HintPass} (h : Ready iid start) : Passed iid start [] start where
  first kind := by simp [firstValue]
  held kind value hget := .inl hget
  accepted hint hmem := by simp [h.accepted] at hmem
  looked hint hmem := absurd hmem List.not_mem_nil
  listed := h.listed
  keptValue := h.keptValue
  once := h.once
  iids d hd := .inl hd
  grows d hd := hd

/-- A hint is accepted. -/
theorem Passed.accept {start s : HintPass} (h : Passed iid start l s)
    (hvalue : ∀ v ∈ s.hints.get? hint.kind, v = hint.value) :
    Passed iid start (l ++ [hint])
      { s with hints := s.hints.set hint.kind hint.value, accepted := s.accepted ++ [hint] } := by
  have hget := get?_set_or hvalue
  have hkeep : ∀ kind v, s.hints.get? kind = some v →
      (s.hints.set hint.kind hint.value).get? kind = some v := by
    intro kind v hv
    rw [hget, hv]
    rfl
  refine ⟨fun kind => ?_, fun kind value hv => ?_, fun hint' hmem => ?_, fun hint' hmem => ?_,
    h.listed, fun d hd => hkeep _ _ (h.keptValue d hd), h.once, h.iids, h.grows⟩
  · rw [hget, h.first, firstValue_append, Option.or_assoc]
  · rw [OrderedMap.get?_set] at hv
    split at hv
    · next hk =>
      refine .inr (List.mem_append_right _ (List.mem_singleton.mpr ?_))
      rw [hk, ← Option.some.inj hv]
    · exact (h.held kind value hv).imp_right (List.mem_append_left _)
  · obtain hmem | hmem := List.mem_append.mp hmem
    · obtain ⟨hl, hv⟩ := h.accepted hint' hmem
      exact ⟨List.mem_append_left _ hl, hkeep _ _ hv⟩
    · rw [List.mem_singleton.mp hmem]
      refine ⟨List.mem_append_right _ List.mem_cons_self, ?_⟩
      rw [OrderedMap.get?_set, if_pos rfl]
  · obtain hmem | hmem := List.mem_append.mp hmem
    · exact (h.looked hint' hmem).imp_left (List.mem_append_left _)
    · exact .inl (List.mem_append_right _ hmem)

/-- A hint is dropped. -/
theorem Passed.drop {start s : HintPass} {keptValue : String} (h : Passed iid start l s)
    (hkept : s.hints.get? hint.kind = some keptValue) :
    Passed iid start (l ++ [hint])
      { s with
        droppedAliasHints :=
          if hint ∈ s.dropped then s.droppedAliasHints
          else s.droppedAliasHints ++ [{ toIdentityProviderHint := hint, iid, keptValue }]
        dropped := s.dropped ++ [hint] } := by
  have hmem' : ∀ d, d ∈ (if hint ∈ s.dropped then s.droppedAliasHints
      else s.droppedAliasHints ++ [{ toIdentityProviderHint := hint, iid, keptValue }])
      ↔ d ∈ s.droppedAliasHints
        ∨ hint ∉ s.dropped ∧ d = { toIdentityProviderHint := hint, iid, keptValue } := by
    intro d
    split
    · next hdropped => simp [hdropped]
    · next hnew => simp [hnew]
  refine ⟨fun kind => ?_, h.held, fun hint' hmem => ?_, fun hint' hmem => ?_, fun hint' => ?_,
    fun d hd => ?_, ?_, fun d hd => ?_, fun d hd => (hmem' d).mpr (.inl (h.grows d hd))⟩
  · show s.hints.get? kind = _
    rw [firstValue_append, ← Option.or_assoc, ← h.first, firstValue_singleton]
    split
    · next hk =>
      subst hk
      rw [hkept]
      rfl
    · exact (Option.or_none).symm
  · obtain ⟨hl, hv⟩ := h.accepted hint' hmem
    exact ⟨List.mem_append_left _ hl, hv⟩
  · obtain hmem | hmem := List.mem_append.mp hmem
    · exact (h.looked hint' hmem).imp_right (List.mem_append_left _)
    · exact .inr (List.mem_append_right _ hmem)
  · show hint' ∈ s.dropped ++ [hint] ↔ _
    rw [List.mem_append, List.mem_singleton, h.listed]
    constructor
    · rintro (⟨d, hd, heq⟩ | rfl)
      · exact ⟨d, (hmem' d).mpr (.inl hd), heq⟩
      · by_cases hdropped : hint' ∈ s.dropped
        · obtain ⟨d, hd, heq⟩ := (h.listed hint').mp hdropped
          exact ⟨d, (hmem' d).mpr (.inl hd), heq⟩
        · exact ⟨_, (hmem' _).mpr (.inr ⟨hdropped, rfl⟩), rfl, rfl⟩
    · rintro ⟨d, hd, hiid, heq⟩
      obtain hd | ⟨-, rfl⟩ := (hmem' d).mp hd
      · exact .inl ⟨d, hd, hiid, heq⟩
      · exact .inr heq.symm
  · obtain hd | ⟨-, rfl⟩ := (hmem' d).mp hd
    · exact h.keptValue d hd
    · exact hkept
  · show (List.map _ (ite _ _ _)).Nodup
    split
    · exact h.once
    · next hnew =>
      rw [List.map_append]
      refine List.nodup_append.mpr ⟨h.once, List.nodup_singleton _, fun a ha b hb hab => ?_⟩
      obtain ⟨d, hd, rfl⟩ := List.mem_map.mp ha
      rw [List.mem_singleton.mp hb] at hab
      exact hnew ((h.listed hint).mpr ⟨d, hd, congrArg Prod.fst hab, congrArg Prod.snd hab⟩)
  · obtain hd | ⟨-, rfl⟩ := (hmem' d).mp hd
    · exact h.iids d hd
    · exact .inr rfl

/-- **What one hint preserves.** -/
theorem Passed.passHint {start s : HintPass} (h : Passed iid start l s)
    (hint : IdentityProviderHint) :
    Passed iid start (l ++ [hint]) (passHint iid s hint) := by
  unfold ProviderPlans.passHint
  split
  · next keptValue hkept =>
    split
    · exact h.drop hkept
    · next heq =>
      refine h.accept fun v hv => ?_
      rw [hkept] at hv
      exact (Option.some.inj hv).symm.trans (not_not.mp heq)
  · next hnone =>
    refine h.accept fun v hv => ?_
    rw [hnone] at hv
    cases hv

/-- **What the hints of a target preserve.** -/
theorem Ready.passHints {start : HintPass} (h : Ready iid start)
    (l : List IdentityProviderHint) :
    Passed iid start l (l.foldl (ProviderPlans.passHint iid) start) := by
  induction l using List.reverseRecOn with
  | nil => exact h.passed
  | append_singleton l hint ih =>
    rw [List.foldl_append]
    exact ih.passHint hint

/-- The targets of a target's hints, without the aliases they came with. -/
def aliasHints (pairs : List (String × IdentityProviderTarget)) : List IdentityProviderHint :=
  hintsOf (pairs.map Prod.snd)

/-- **What was merged**: the targets of the primary plan, and targets of aliases, each with the
IID of its alias. -/
structure Merged (primary : List IdentityProviderTarget)
    (pairs : List (String × IdentityProviderTarget)) (m : Merge)
    (droppedAliasHints : List DroppedAliasHint) : Prop where
  provider : ∀ p t, m.targets.get? p = some t → t.provider = p
  agrees : ∀ p t, m.targets.get? p = some t →
    ∀ h ∈ t.identifierHints, m.hints.get? h.kind = some h.value
  providers : ∀ p, p ∈ m.targets.keys
    ↔ (∃ t ∈ primary, t.provider = p) ∨ ∃ e ∈ pairs, e.2.provider = p
  kept : ∀ t ∈ primary, ∃ t', m.targets.get? t.provider = some t'
    ∧ ∀ h ∈ t.identifierHints, h ∈ t'.identifierHints
  first : ∀ kind, m.hints.get? kind = firstValue (hintsOf primary ++ aliasHints pairs) kind
  held : ∀ kind value, m.hints.get? kind = some value →
    ∃ p t, m.targets.get? p = some t ∧ { kind, value } ∈ t.identifierHints
  placed : ∀ e ∈ pairs, ∀ h ∈ e.2.identifierHints,
    (∃ t, m.targets.get? e.2.provider = some t ∧ h ∈ t.identifierHints)
      ∨ ∃ d ∈ droppedAliasHints, d.iid = e.1 ∧ d.toIdentityProviderHint = h
  keptValue : ∀ d ∈ droppedAliasHints, m.hints.get? d.kind = some d.keptValue
  once : (droppedAliasHints.map fun d => (d.iid, d.toIdentityProviderHint)).Nodup
  iids : ∀ d ∈ droppedAliasHints, ∃ e ∈ pairs, e.1 = d.iid

/-- Hints that agree with one map are merged without a loss. -/
theorem mem_mergeHints {previous accepted : List IdentityProviderHint}
    (hprevious : ∀ h ∈ previous, hints.get? h.kind = some h.value)
    (haccepted : ∀ h ∈ accepted, hints.get? h.kind = some h.value) :
    hint ∈ mergeHints previous accepted ↔ hint ∈ previous ∨ hint ∈ accepted := by
  unfold mergeHints
  rw [← OrderedMap.index_append, OrderedMap.mem_values_index, List.mem_append]
  have hall : ∀ h ∈ previous ++ accepted, hints.get? h.kind = some h.value := by
    intro h hmem
    exact (List.mem_append.mp hmem).elim (hprevious h) (haccepted h)
  intro h hmem h' hmem' hkind
  have hvalue := hall h hmem
  rw [hkind, hall h' hmem'] at hvalue
  obtain ⟨kind, value⟩ := h
  obtain ⟨kind', value'⟩ := h'
  cases hkind
  cases hvalue
  rfl

variable {primary : List IdentityProviderTarget} {pairs : List (String × IdentityProviderTarget)}

/-- What the target of a provider has, if its hints agree with one map. -/
theorem mem_mergedTarget {previous : Option IdentityProviderTarget}
    {target : IdentityProviderTarget} {accepted : List IdentityProviderHint}
    (hprevious : ∀ t ∈ previous, ∀ h ∈ t.identifierHints, hints.get? h.kind = some h.value)
    (haccepted : ∀ h ∈ accepted, hints.get? h.kind = some h.value) :
    hint ∈ (mergedTarget previous target accepted).identifierHints
      ↔ (∃ t ∈ previous, hint ∈ t.identifierHints) ∨ hint ∈ accepted := by
  unfold mergedTarget
  cases previous with
  | none => exact (mem_mergeHints (by simp) haccepted).trans (by simp)
  | some t => exact (mem_mergeHints (hprevious t rfl) haccepted).trans (by simp)

/-- A provider is there if it was, or is set. -/
theorem mem_keys_set {targets : OrderedMap String IdentityProviderTarget}
    {target : IdentityProviderTarget} {p p' : String} :
    p ∈ (targets.set p' target).keys ↔ p ∈ targets.keys ∨ p' = p := by
  rw [OrderedMap.keys_set]
  split
  · next hthere => exact ⟨.inl, fun hor => hor.elim id fun heq => heq ▸ hthere⟩
  · rw [List.mem_append, List.mem_singleton, eq_comm (a := p)]

/-- A target that is set keeps the rule that targets are filed under their providers. -/
theorem provider_set {targets : OrderedMap String IdentityProviderTarget} {p₀ : String}
    {target : IdentityProviderTarget} (h : ∀ p t, targets.get? p = some t → t.provider = p)
    (htarget : target.provider = p₀) :
    ∀ p t, (targets.set p₀ target).get? p = some t → t.provider = p := by
  intro p t ht
  rw [OrderedMap.get?_set] at ht
  split at ht
  · next hp => rw [← Option.some.inj ht, htarget, hp]
  · exact h p t ht

/-- A target whose hints agree with a map keeps all in agreement. -/
theorem agrees_set {targets : OrderedMap String IdentityProviderTarget} {p₀ : String}
    {target : IdentityProviderTarget}
    (h : ∀ p t, targets.get? p = some t →
      ∀ hint ∈ t.identifierHints, hints.get? hint.kind = some hint.value)
    (htarget : ∀ hint ∈ target.identifierHints, hints.get? hint.kind = some hint.value) :
    ∀ p t, (targets.set p₀ target).get? p = some t →
      ∀ hint ∈ t.identifierHints, hints.get? hint.kind = some hint.value := by
  intro p t ht
  rw [OrderedMap.get?_set] at ht
  split at ht
  · rw [← Option.some.inj ht]
    exact htarget
  · exact h p t ht

/-- No target loses a hint if the one that is replaced does not. -/
theorem keeps_set {targets : OrderedMap String IdentityProviderTarget} {p₀ : String}
    {target : IdentityProviderTarget} (h : ∀ t ∈ targets.get? p₀,
      ∀ hint ∈ t.identifierHints, hint ∈ target.identifierHints) {p : String}
    {t : IdentityProviderTarget} (ht : targets.get? p = some t) :
    ∃ t', (targets.set p₀ target).get? p = some t'
      ∧ ∀ hint ∈ t.identifierHints, hint ∈ t'.identifierHints := by
  rw [OrderedMap.get?_set]
  split
  · next hp =>
    subst hp
    exact ⟨target, rfl, h t ht⟩
  · exact ⟨t, ht, fun _ hin => hin⟩

/-- The target of a provider is that of its first target. -/
theorem provider_mergedTarget {previous : Option IdentityProviderTarget}
    {target : IdentityProviderTarget} {accepted : List IdentityProviderHint}
    (h : ∀ t ∈ previous, t.provider = target.provider) :
    (mergedTarget previous target accepted).provider = target.provider := by
  unfold mergedTarget
  cases previous with
  | none => rfl
  | some t => exact h t rfl

/-- **What a target of an alias preserves.** -/
theorem Merged.mergeAliasTarget {s : AliasPass}
    (h : Merged primary pairs s.toMerge s.droppedAliasHints)
    (hlisted : ∀ hint, hint ∈ s.dropped
      ↔ ∃ d ∈ s.droppedAliasHints, d.iid = iid ∧ d.toIdentityProviderHint = hint)
    (target : IdentityProviderTarget) :
    Merged primary (pairs ++ [(iid, target)]) (mergeAliasTarget iid s target).toMerge
        (mergeAliasTarget iid s target).droppedAliasHints
      ∧ ∀ hint, hint ∈ (mergeAliasTarget iid s target).dropped
        ↔ ∃ d ∈ (mergeAliasTarget iid s target).droppedAliasHints,
          d.iid = iid ∧ d.toIdentityProviderHint = hint := by
  have hready : Ready iid ⟨s.hints, [], s.dropped, s.droppedAliasHints⟩ :=
    ⟨rfl, hlisted, h.keptValue, h.once⟩
  have hpass := hready.passHints target.identifierHints
  unfold ProviderPlans.mergeAliasTarget
  dsimp only
  generalize target.identifierHints.foldl (ProviderPlans.passHint iid) _ = pass at hpass ⊢
  have hgrow : ∀ kind v, s.hints.get? kind = some v → pass.hints.get? kind = some v := by
    intro kind v hv
    rw [hpass.first]
    show (s.hints.get? kind).or _ = _
    rw [hv]
    rfl
  have hprevious : ∀ t ∈ s.targets.get? target.provider,
      ∀ hint ∈ t.identifierHints, pass.hints.get? hint.kind = some hint.value :=
    fun t ht hint hin => hgrow _ _ (h.agrees target.provider t ht hint hin)
  have haccepted : ∀ hint ∈ pass.accepted, pass.hints.get? hint.kind = some hint.value :=
    fun hint hin => (hpass.accepted hint hin).2
  have hmem : ∀ hint, hint ∈ (mergedTarget (s.targets.get? target.provider) target
      pass.accepted).identifierHints ↔ (∃ t ∈ s.targets.get? target.provider,
        hint ∈ t.identifierHints) ∨ hint ∈ pass.accepted :=
    fun hint => mem_mergedTarget hprevious haccepted
  have hget := OrderedMap.get?_set s.targets target.provider target.provider
    (mergedTarget (s.targets.get? target.provider) target pass.accepted)
  have hkeep : ∀ t ∈ s.targets.get? target.provider, ∀ hint ∈ t.identifierHints, hint
      ∈ (mergedTarget (s.targets.get? target.provider) target pass.accepted).identifierHints :=
    fun t ht hint hin => (hmem hint).mpr (.inl ⟨t, ht, hin⟩)
  refine ⟨⟨provider_set h.provider (provider_mergedTarget fun t ht => h.provider _ t ht),
    agrees_set (fun p t ht hint hin => hgrow _ _ (h.agrees p t ht hint hin)) fun hint hin => ?_,
    fun p => ?_, fun t ht => ?_, fun kind => ?_, fun kind value hv => ?_, fun e he hint hin => ?_,
    hpass.keptValue, hpass.once, fun d hd => ?_⟩, hpass.listed⟩
  · obtain ⟨t, ht, hin⟩ | hin := (hmem hint).mp hin
    · exact hprevious t ht hint hin
    · exact haccepted hint hin
  · rw [mem_keys_set, h.providers]
    simp [or_assoc, or_and_right, exists_or]
  · obtain ⟨t₁, ht₁, hsub⟩ := h.kept t ht
    obtain ⟨t₂, ht₂, hsub'⟩ := keeps_set hkeep ht₁
    exact ⟨t₂, ht₂, fun hint hin => hsub' hint (hsub hint hin)⟩
  · rw [hpass.first]
    show (s.hints.get? kind).or _ = _
    rw [h.first, ← firstValue_append]
    simp [aliasHints, hintsOf]
  · obtain hv | hin := hpass.held kind value hv
    · obtain ⟨p, t, ht, hin⟩ := h.held kind value hv
      obtain ⟨t', ht', hsub⟩ := keeps_set hkeep ht
      exact ⟨p, t', ht', hsub _ hin⟩
    · exact ⟨target.provider, _, hget.trans (if_pos rfl), (hmem _).mpr (.inr hin)⟩
  · obtain he | he := List.mem_append.mp he
    · refine (h.placed e he hint hin).imp ?_ ?_
      · rintro ⟨t, ht, hin⟩
        obtain ⟨t', ht', hsub⟩ := keeps_set hkeep ht
        exact ⟨t', ht', hsub _ hin⟩
      · rintro ⟨d, hd, heq⟩
        exact ⟨d, hpass.grows d hd, heq⟩
    · rw [List.mem_singleton.mp he] at hin ⊢
      obtain hin | hin := hpass.looked hint hin
      · exact .inl ⟨_, hget.trans (if_pos rfl), (hmem _).mpr (.inr hin)⟩
      · exact .inr ((hpass.listed hint).mp hin)
  · obtain hd | heq := hpass.iids d hd
    · obtain ⟨e, he, heq⟩ := h.iids d hd
      exact ⟨e, List.mem_append_left _ he, heq⟩
    · exact ⟨(iid, target), List.mem_append_right _ List.mem_cons_self, heq.symm⟩

/-- An alias that could be resolved. -/
structure ResolvedAlias where
  iid : String
  plan : IdentityProviderPlan
  deriving DecidableEq, Repr

/-- The targets of an alias, each with its IID. -/
def pairsOf (a : ResolvedAlias) : List (String × IdentityProviderTarget) :=
  a.plan.targets.map fun target => (a.iid, target)

/-- **What an alias preserves** that is none of those that were merged. -/
theorem Merged.mergeAlias {m : Merge} {droppedAliasHints : List DroppedAliasHint}
    (h : Merged primary pairs m droppedAliasHints) (hnew : ∀ e ∈ pairs, e.1 ≠ iid)
    (targets : List IdentityProviderTarget) :
    let s := targets.foldl (ProviderPlans.mergeAliasTarget iid)
      { toMerge := m, droppedAliasHints }
    Merged primary (pairs ++ targets.map fun target => (iid, target)) s.toMerge
        s.droppedAliasHints
      ∧ ∀ hint, hint ∈ s.dropped
        ↔ ∃ d ∈ s.droppedAliasHints, d.iid = iid ∧ d.toIdentityProviderHint = hint := by
  induction targets using List.reverseRecOn with
  | nil =>
    rw [List.map_nil, List.append_nil]
    refine ⟨h, fun hint => iff_of_false List.not_mem_nil ?_⟩
    rintro ⟨d, hd, hiid, -⟩
    obtain ⟨e, he, heq⟩ := h.iids d hd
    exact hnew e he (heq.trans hiid)
  | append_singleton targets target ih =>
    rw [List.foldl_append, List.map_append, ← List.append_assoc]
    exact ih.1.mergeAliasTarget ih.2 target

/-- The aliases that are merged, in order: those that are not the primary IID and can be
resolved. -/
def resolvable (input : ExtendInput) (resolveAlias : String → Option IdentityProviderPlan)
    (iids : List String) : List ResolvedAlias :=
  (iids.filter fun iid => input.primaryIid ≠ some iid).filterMap fun iid =>
    (resolveAlias iid).map fun plan => { iid, plan }

variable {input : ExtendInput} {resolveAlias : String → Option IdentityProviderPlan}
  {iids : List String}

theorem mem_resolvable {a : ResolvedAlias} : a ∈ resolvable input resolveAlias iids
    ↔ a.iid ∈ iids ∧ input.primaryIid ≠ some a.iid ∧ resolveAlias a.iid = some a.plan := by
  unfold resolvable
  rw [List.mem_filterMap]
  constructor
  · rintro ⟨iid, hmem, hplan⟩
    obtain ⟨plan, hresolve, rfl⟩ := Option.map_eq_some_iff.mp hplan
    obtain ⟨hin, hne⟩ := List.mem_filter.mp hmem
    exact ⟨hin, of_decide_eq_true hne, hresolve⟩
  · rintro ⟨hin, hne, hresolve⟩
    exact ⟨a.iid, List.mem_filter.mpr ⟨hin, decide_eq_true hne⟩, by rw [hresolve]; rfl⟩

/-- **What the loop over the aliases preserves.** There is a provenance unless there was none
and nothing was merged. -/
theorem Merged.mergeAliases {start : AliasMerge}
    (h : Merged primary [] start.toMerge start.droppedAliasHints) (hiids : iids.Nodup) :
    let s := iids.foldl (ProviderPlans.mergeAlias input.primaryIid resolveAlias) start
    Merged primary ((resolvable input resolveAlias iids).flatMap pairsOf) s.toMerge
        s.droppedAliasHints
      ∧ (s.provenance = none →
        start.provenance = none ∧ resolvable input resolveAlias iids = []) := by
  induction iids using List.reverseRecOn with
  | nil => exact ⟨h, fun hnone => ⟨hnone, rfl⟩⟩
  | append_singleton iids iid ih =>
    obtain ⟨hbefore, -, hnew⟩ := List.nodup_append.mp hiids
    obtain ⟨hmerged, hprovenance⟩ := ih hbefore
    have happend : resolvable input resolveAlias (iids ++ [iid])
        = resolvable input resolveAlias iids ++ resolvable input resolveAlias [iid] := by
      simp [resolvable]
    rw [List.foldl_append, happend, List.flatMap_append, List.foldl_cons, List.foldl_nil]
    unfold ProviderPlans.mergeAlias
    by_cases hprimary : input.primaryIid = some iid
    · have hnone : resolvable input resolveAlias [iid] = [] := by simp [resolvable, hprimary]
      rw [if_pos hprimary, hnone, List.flatMap_nil, List.append_nil, List.append_nil]
      exact ⟨hmerged, hprovenance⟩
    · rw [if_neg hprimary]
      cases hresolve : resolveAlias iid with
      | none =>
        have hnone : resolvable input resolveAlias [iid] = [] := by
          simp [resolvable, hprimary, hresolve]
        rw [hnone, List.flatMap_nil, List.append_nil, List.append_nil]
        exact ⟨hmerged, hprovenance⟩
      | some plan =>
        have hone : resolvable input resolveAlias [iid] = [{ iid, plan }] := by
          simp [resolvable, hprimary, hresolve]
        rw [hone, List.flatMap_singleton]
        have hother : ∀ e ∈ (resolvable input resolveAlias iids).flatMap pairsOf, e.1 ≠ iid := by
          intro e he heq
          obtain ⟨a, ha, he⟩ := List.mem_flatMap.mp he
          obtain ⟨target, -, rfl⟩ := List.mem_map.mp he
          exact hnew _ (mem_resolvable.mp ha).1 _ List.mem_cons_self heq
        refine ⟨(hmerged.mergeAlias hother plan.targets).1, fun hnone => ?_⟩
        simp at hnone

/-! ## The primary plan -/

theorem NoConflict.mono (h : NoConflict l) (hsub : ∀ hint ∈ l', hint ∈ l) : NoConflict l' :=
  fun _ hmem _ hmem' => h _ (hsub _ hmem) _ (hsub _ hmem')

/-- A map that agrees with all hints does so with the later ones where it notes the first. -/
theorem NoConflict.agrees_set (hconflict : NoConflict (hint :: l))
    (hvalue : ∀ h ∈ hint :: l, ∀ v ∈ hints.get? h.kind, v = h.value) :
    ∀ h ∈ l, ∀ v ∈ (hints.set hint.kind hint.value).get? h.kind, v = h.value := by
  intro h hmem v hv
  rw [OrderedMap.get?_set] at hv
  split at hv
  · next hk =>
    rw [← Option.some.inj hv]
    exact hconflict _ List.mem_cons_self _ (List.mem_cons_of_mem _ hmem) hk.symm
  · exact hvalue h (List.mem_cons_of_mem _ hmem) v hv

theorem notePrimaryHints (hvalue : ∀ h ∈ l, ∀ v ∈ hints.get? h.kind, v = h.value)
    (hconflict : NoConflict l) : ∃ hints', l.foldlM notePrimaryHint hints = .ok hints'
      ∧ ∀ kind, hints'.get? kind = (hints.get? kind).or (firstValue l kind) := by
  induction l generalizing hints with
  | nil => exact ⟨hints, rfl, fun kind => by simp [firstValue]⟩
  | cons hint l ih =>
    have hhint := hvalue hint List.mem_cons_self
    have hget := get?_set_or hhint
    have hnote : notePrimaryHint hints hint = .ok (hints.set hint.kind hint.value) := by
      unfold notePrimaryHint
      rw [if_neg]
      · rfl
      · rintro ⟨v, hv, hne⟩
        exact hne (hhint v hv)
    obtain ⟨hints', hfold, hget'⟩ := ih (hconflict.agrees_set hvalue)
      (hconflict.mono fun _ => List.mem_cons_of_mem _)
    refine ⟨hints', ?_, fun kind => ?_⟩
    · rw [List.foldlM_cons, hnote]
      exact hfold
    · rw [hget', hget, Option.or_assoc, ← firstValue_append]
      rfl

theorem mem_joinedTarget {previous : Option IdentityProviderTarget}
    {target : IdentityProviderTarget} : hint ∈ (joinedTarget previous target).identifierHints
      ↔ (∃ t ∈ previous, hint ∈ t.identifierHints) ∨ hint ∈ target.identifierHints := by
  unfold joinedTarget
  cases previous <;> simp

theorem provider_joinedTarget {previous : Option IdentityProviderTarget}
    {target : IdentityProviderTarget} (h : ∀ t ∈ previous, t.provider = target.provider) :
    (joinedTarget previous target).provider = target.provider := by
  unfold joinedTarget
  cases previous with
  | none => rfl
  | some t => exact h t rfl

/-- **What a target of the primary plan preserves.** -/
theorem Merged.mergePrimaryTarget {m : Merge} (h : Merged primary [] m [])
    (target : IdentityProviderTarget)
    (hconflict : NoConflict (hintsOf primary ++ target.identifierHints))
    (hget : ∀ kind, hints.get? kind
      = firstValue (hintsOf primary ++ target.identifierHints) kind) :
    Merged (primary ++ [target]) []
      { targets := m.targets.set target.provider
          (joinedTarget (m.targets.get? target.provider) target)
        hints } [] := by
  have hset := OrderedMap.get?_set m.targets target.provider target.provider
    (joinedTarget (m.targets.get? target.provider) target)
  have hgrow : ∀ kind v, m.hints.get? kind = some v → hints.get? kind = some v := by
    intro kind v hv
    rw [h.first] at hv
    rw [hget, firstValue_append, ← List.append_nil (hintsOf primary)]
    exact congrArg (Option.or · _) hv
  have hkeep : ∀ t ∈ m.targets.get? target.provider, ∀ hint ∈ t.identifierHints,
      hint ∈ (joinedTarget (m.targets.get? target.provider) target).identifierHints :=
    fun t ht hint hin => mem_joinedTarget.mpr (.inl ⟨t, ht, hin⟩)
  refine ⟨provider_set h.provider (provider_joinedTarget fun t ht => h.provider _ t ht),
    agrees_set (fun p t ht hint hin => hgrow _ _ (h.agrees p t ht hint hin)) fun hint hin => ?_,
    fun p => ?_, fun t ht => ?_, fun kind => ?_, fun kind value hv => ?_, fun e he => ?_,
    fun d hd => ?_, List.nodup_nil, fun d hd => ?_⟩
  · obtain ⟨t, ht, hin⟩ | hin := mem_joinedTarget.mp hin
    · exact hgrow _ _ (h.agrees _ t ht hint hin)
    · rw [hget]
      exact firstValue_of_mem hconflict (List.mem_append_right _ hin)
  · rw [mem_keys_set, h.providers]
    simp [or_and_right, exists_or]
  · obtain ht | ht := List.mem_append.mp ht
    · obtain ⟨t₁, ht₁, hsub⟩ := h.kept t ht
      obtain ⟨t₂, ht₂, hsub'⟩ := keeps_set hkeep ht₁
      exact ⟨t₂, ht₂, fun hint hin => hsub' hint (hsub hint hin)⟩
    · rw [List.mem_singleton.mp ht]
      exact ⟨_, hset.trans (if_pos rfl), fun hint hin => mem_joinedTarget.mpr (.inr hin)⟩
  · rw [hget]
    simp [hintsOf, aliasHints]
  · have hv' : hints.get? kind = some value := hv
    rw [hget, firstValue_append] at hv'
    obtain hbefore | ⟨-, hnew⟩ := Option.or_eq_some_iff.mp hv'
    · obtain ⟨p, t, ht, hin⟩ := h.held kind value (by
        rw [h.first]
        exact (congrArg (firstValue · kind) (List.append_nil _)).trans hbefore)
      obtain ⟨t', ht', hsub⟩ := keeps_set hkeep ht
      exact ⟨p, t', ht', hsub _ hin⟩
    · exact ⟨target.provider, _, hset.trans (if_pos rfl),
        mem_joinedTarget.mpr (.inr (exists_of_firstValue hnew))⟩
  · cases he
  · cases hd
  · cases hd

/-- **A primary plan without conflicts is merged**, and all of it kept. -/
theorem mergePrimary (hconflict : NoConflict (hintsOf primary)) :
    ∃ m, primary.foldlM mergePrimaryTarget {} = .ok m ∧ Merged primary [] m [] := by
  induction primary using List.reverseRecOn with
  | nil =>
    refine ⟨{}, rfl, fun p t ht => ?_, fun p t ht => ?_, fun p => ?_, fun t ht => ?_,
      fun kind => rfl, fun kind value hv => ?_, fun e he => ?_, fun d hd => ?_, List.nodup_nil,
      fun d hd => ?_⟩
    · cases ht
    · cases ht
    · exact iff_of_false List.not_mem_nil (by simp)
    · cases ht
    · cases hv
    · cases he
    · cases hd
    · cases hd
  | append_singleton primary target ih =>
    have happend : hintsOf (primary ++ [target]) = hintsOf primary ++ target.identifierHints := by
      simp [hintsOf]
    rw [happend] at hconflict
    obtain ⟨m, hfold, h⟩ := ih (hconflict.mono fun _ => List.mem_append_left _)
    have hfirst : ∀ kind, m.hints.get? kind = firstValue (hintsOf primary) kind := by
      intro kind
      rw [h.first]
      exact congrArg (firstValue · kind) (List.append_nil _)
    have hvalue : ∀ hint ∈ target.identifierHints, ∀ v ∈ m.hints.get? hint.kind,
        v = hint.value := by
      intro hint hmem v hv
      rw [hfirst] at hv
      have hbefore := List.mem_append_left target.identifierHints (exists_of_firstValue hv)
      exact hconflict _ hbefore _ (List.mem_append_right _ hmem) rfl
    obtain ⟨hints', hnote, hget⟩ := notePrimaryHints hvalue
      (hconflict.mono fun _ => List.mem_append_right _)
    have hall : ∀ kind, hints'.get? kind
        = firstValue (hintsOf primary ++ target.identifierHints) kind := by
      intro kind
      rw [hget, hfirst, firstValue_append]
    have hmerged := h.mergePrimaryTarget target hconflict hall
    refine ⟨_, ?_, hmerged⟩
    rw [List.foldlM_append, hfold]
    show (ProviderPlans.mergePrimaryTarget m target).bind pure = _
    unfold ProviderPlans.mergePrimaryTarget
    rw [hnote]
    rfl

/-! ## What reads the plan -/

/-- **Hints without conflicts are collected**, unless one has the kind of a property that every
object has. -/
theorem collectHints {identifiers : OrderedMap String String} (hconflict : NoConflict l)
    (hvalue : ∀ h ∈ l, ∀ v ∈ identifiers.get? h.kind, v = h.value)
    (hown : ∀ kind ∈ identifiers.keys, kind ∉ objectPrototype) :
    (∃ identifiers', l.foldlM collectHint identifiers = .ok identifiers')
      ↔ ∀ h ∈ l, h.kind ∉ objectPrototype := by
  induction l generalizing identifiers with
  | nil => exact iff_of_true ⟨identifiers, rfl⟩ fun h hmem => absurd hmem List.not_mem_nil
  | cons hint l ih =>
    have hhint := hvalue hint List.mem_cons_self
    rw [List.forall_mem_cons, List.foldlM_cons]
    by_cases hinherited : hint.kind ∈ objectPrototype
    · -- such a kind cannot be there yet
      have hnone : identifiers.get? hint.kind = none :=
        OrderedMap.get?_eq_none.mpr fun hmem => hown _ hmem hinherited
      have hthrow : collectHint identifiers hint = .error (conflicting hint.kind) := by
        unfold collectHint
        rw [hnone]
        exact if_pos hinherited
      refine iff_of_false ?_ fun h => h.1 hinherited
      rw [hthrow]
      rintro ⟨_, h⟩
      cases h
    · have hset : collectHint identifiers hint = .ok (identifiers.set hint.kind hint.value) := by
        unfold collectHint
        split
        · next existing hget => exact if_neg (not_not.mpr (hhint existing hget))
        · exact if_neg hinherited
      rw [hset, and_iff_right hinherited]
      refine ih (hconflict.mono fun _ => List.mem_cons_of_mem _) (hconflict.agrees_set hvalue)
        fun kind hmem => ?_
      rw [OrderedMap.keys_set] at hmem
      split at hmem
      · exact hown kind hmem
      · obtain hmem | hmem := List.mem_append.mp hmem
        · exact hown kind hmem
        · rwa [List.mem_singleton.mp hmem]

/-! ## The law -/

/-- The aliases of a node, each once. -/
def aliasesOf (input : ExtendInput) (resolveAlias : String → Option IdentityProviderPlan) :
    List ResolvedAlias :=
  resolvable input resolveAlias (newSet input.aliasIids)

/-- All hints that a plan is made from. -/
def supplied (input : ExtendInput) (resolveAlias : String → Option IdentityProviderPlan) :
    List IdentityProviderHint :=
  hintsOf (targetsOf input.primaryPlan)
    ++ aliasHints ((aliasesOf input resolveAlias).flatMap pairsOf)

/-- **An extended plan extends the primary one and does not contradict it.** -/
structure ExtendsPrimary (input : ExtendInput)
    (resolveAlias : String → Option IdentityProviderPlan) (r : Extended) : Prop where
  noConflict : NoConflict (hintsOf (targetsOf r.providerPlan))
  collected : ∃ identifiers, collectIdentityIdentifierHints r.providerPlan = .ok identifiers
  kept : ∀ t ∈ targetsOf input.primaryPlan, ∃ t' ∈ targetsOf r.providerPlan,
    t'.provider = t.provider ∧ ∀ h ∈ t.identifierHints, h ∈ t'.identifierHints
  providers : ∀ p, (∃ t ∈ targetsOf r.providerPlan, t.provider = p)
    ↔ (∃ t ∈ targetsOf input.primaryPlan, t.provider = p)
      ∨ ∃ a ∈ aliasesOf input resolveAlias, ∃ t ∈ a.plan.targets, t.provider = p
  /-- A kind that only aliases have has the value of the first of them. -/
  earliest : ∀ kind value before a after, aliasesOf input resolveAlias = before ++ a :: after →
    (∀ h ∈ hintsOf (targetsOf input.primaryPlan), h.kind ≠ kind) →
    (∀ b ∈ before, ∀ h ∈ hintsOf b.plan.targets, h.kind ≠ kind) →
    NoConflict (hintsOf a.plan.targets) → { kind, value } ∈ hintsOf a.plan.targets →
    { kind, value } ∈ hintsOf (targetsOf r.providerPlan)
  /-- A hint of an alias is in the plan, or listed once with the value that is. -/
  placed : ∀ a ∈ aliasesOf input resolveAlias, ∀ t ∈ a.plan.targets, ∀ h ∈ t.identifierHints,
    (∃ t' ∈ targetsOf r.providerPlan, t'.provider = t.provider ∧ h ∈ t'.identifierHints)
      ∨ ∃ keptValue, { kind := h.kind, value := keptValue } ∈ hintsOf (targetsOf r.providerPlan)
        ∧ r.droppedAliasHints.filter (fun d => d.iid = a.iid ∧ d.toIdentityProviderHint = h)
          = [{ toIdentityProviderHint := h, iid := a.iid, keptValue }]

theorem nodup_newSet (values : List String) : (newSet values).Nodup :=
  (OrderedMap.index id values).nodup

/-- What the extension returns. -/
theorem extend_eq (hresolve : input.resolveAlias = some resolveAlias)
    (hconflict : NoConflict (hintsOf (targetsOf input.primaryPlan))) :
    ∃ r m, extendProviderPlanWithAliases input = .ok r
      ∧ targetsOf r.providerPlan = m.targets.values
      ∧ Merged (targetsOf input.primaryPlan) ((aliasesOf input resolveAlias).flatMap pairsOf) m
        r.droppedAliasHints := by
  obtain ⟨m, hprimary, hm⟩ := mergePrimary hconflict
  let start : AliasMerge :=
    { toMerge := m, provenance := input.primaryPlan.map IdentityProviderPlan.provenance }
  have hstart : Merged (targetsOf input.primaryPlan) [] start.toMerge start.droppedAliasHints := hm
  obtain ⟨hs, hprovenance⟩ : _ ∧ _ :=
    hstart.mergeAliases (nodup_newSet input.aliasIids)
  unfold extendProviderPlanWithAliases
  rw [hresolve]
  simp only [hprimary]
  refine ⟨_, _, rfl, ?_, hs⟩
  dsimp only
  split
  · rfl
  · next hnone =>
    -- there was no plan at all
    obtain ⟨hplan, hempty⟩ := hprovenance hnone
    have htargets : targetsOf input.primaryPlan = [] := by
      rw [Option.map_eq_none_iff.mp hplan]
      rfl
    rw [htargets]
    refine (List.eq_nil_iff_forall_not_mem.mpr fun t ht => ?_).symm
    obtain ⟨p, hp⟩ := OrderedMap.mem_values.mp ht
    have hkey := (hs.providers p).mp (OrderedMap.mem_keys.mpr ⟨t, hp⟩)
    rw [hempty, htargets] at hkey
    simp at hkey

/-- A hint is in the plan exactly if some target has it. -/
theorem mem_hintsOf {targets : List IdentityProviderTarget} :
    hint ∈ hintsOf targets ↔ ∃ t ∈ targets, hint ∈ t.identifierHints :=
  List.mem_flatMap

theorem aliasHints_append (ps ps' : List (String × IdentityProviderTarget)) :
    aliasHints (ps ++ ps') = aliasHints ps ++ aliasHints ps' := by
  simp [aliasHints, hintsOf]

theorem aliasHints_pairsOf (a : ResolvedAlias) :
    aliasHints (pairsOf a) = hintsOf a.plan.targets := by
  unfold aliasHints pairsOf
  rw [List.map_map]
  exact congrArg hintsOf (List.map_id _)

/-- Of rows with different keys, one is all that has its key. -/
theorem filter_key_eq {α κ : Type} [DecidableEq κ] {key : α → κ} {rows : List α} {r : α}
    (h : (rows.map key).Nodup) (hr : r ∈ rows) :
    rows.filter (fun r' => key r' = key r) = [r] := by
  induction rows with
  | nil => cases hr
  | cons r' rows ih =>
    rw [List.map_cons, List.nodup_cons] at h
    obtain rfl | hr := List.mem_cons.mp hr
    · rw [List.filter_cons, if_pos (decide_eq_true rfl)]
      refine congrArg (r :: ·) (List.filter_eq_nil_iff.mpr fun r' hr' heq => h.1 ?_)
      exact List.mem_map.mpr ⟨r', hr', of_decide_eq_true heq⟩
    · have hne : key r' ≠ key r := fun heq => h.1 (heq ▸ List.mem_map_of_mem hr)
      rw [List.filter_cons, if_neg (by simpa using hne)]
      exact ih h.2 hr

section Values

variable {m : Merge} {droppedAliasHints : List DroppedAliasHint}

/-- A target that was merged is the one of its provider. -/
theorem Merged.mem_values (hm : Merged primary pairs m droppedAliasHints)
    {t : IdentityProviderTarget} :
    t ∈ m.targets.values ↔ m.targets.get? t.provider = some t := by
  rw [OrderedMap.mem_values]
  constructor
  · rintro ⟨p, hp⟩
    rwa [hm.provider p t hp]
  · exact fun ht => ⟨_, ht⟩

theorem Merged.of_get? (hm : Merged primary pairs m droppedAliasHints) {p : String}
    {t : IdentityProviderTarget} (ht : m.targets.get? p = some t) :
    t ∈ m.targets.values ∧ t.provider = p :=
  ⟨OrderedMap.mem_values.mpr ⟨p, ht⟩, hm.provider p t ht⟩

/-- **A target has a hint exactly if the map of kinds has its value.** -/
theorem Merged.mem_hintsOf_values (hm : Merged primary pairs m droppedAliasHints) :
    hint ∈ hintsOf m.targets.values ↔ m.hints.get? hint.kind = some hint.value := by
  rw [mem_hintsOf]
  constructor
  · rintro ⟨t, ht, hin⟩
    exact hm.agrees _ t (hm.mem_values.mp ht) hint hin
  · intro hget
    obtain ⟨p, t, ht, hin⟩ := hm.held _ _ hget
    exact ⟨t, (hm.of_get? ht).1, hin⟩

theorem Merged.noConflict_values (hm : Merged primary pairs m droppedAliasHints) :
    NoConflict (hintsOf m.targets.values) := by
  intro h hmem h' hmem' hkind
  have hget := hm.mem_hintsOf_values.mp hmem
  rw [hkind, hm.mem_hintsOf_values.mp hmem'] at hget
  exact (Option.some.inj hget).symm

/-- **The targets have hints of the kinds that were merged**, and of no others. -/
theorem Merged.exists_kind_iff (hm : Merged primary pairs m droppedAliasHints) (kind : String) :
    (∃ h ∈ hintsOf m.targets.values, h.kind = kind)
      ↔ ∃ h ∈ hintsOf primary ++ aliasHints pairs, h.kind = kind := by
  have hfirst := hm.first kind
  constructor
  · rintro ⟨h, hmem, rfl⟩
    rw [hm.mem_hintsOf_values.mp hmem] at hfirst
    exact ⟨_, exists_of_firstValue hfirst.symm, rfl⟩
  · rintro ⟨h, hmem, rfl⟩
    cases hget : m.hints.get? h.kind with
    | none => exact absurd rfl (firstValue_eq_none.mp (hfirst.symm.trans hget) h hmem)
    | some value =>
      exact ⟨{ kind := h.kind, value }, hm.mem_hintsOf_values.mpr hget, rfl⟩

theorem Merged.exists_provider_iff (hm : Merged primary pairs m droppedAliasHints) (p : String) :
    (∃ t ∈ m.targets.values, t.provider = p) ↔ p ∈ m.targets.keys := by
  rw [OrderedMap.mem_keys]
  constructor
  · rintro ⟨t, ht, rfl⟩
    exact ⟨t, hm.mem_values.mp ht⟩
  · rintro ⟨t, ht⟩
    exact ⟨t, hm.of_get? ht⟩

/-- **The hints of a plan are collected where no kind that was merged is inherited.** -/
theorem Merged.exists_collected_iff (hm : Merged primary pairs m droppedAliasHints)
    {plan : Option IdentityProviderPlan} (htargets : targetsOf plan = m.targets.values) :
    (∃ identifiers, collectIdentityIdentifierHints plan = .ok identifiers)
      ↔ ∀ h ∈ hintsOf primary ++ aliasHints pairs, h.kind ∉ objectPrototype := by
  have hno : NoConflict (hintsOf (targetsOf plan)) := htargets ▸ hm.noConflict_values
  refine (collectHints hno (fun h _ v hv => by cases hv) (fun kind hk => by cases hk)).trans ?_
  rw [htargets]
  constructor
  · intro hall h hmem
    obtain ⟨h', hmem', hkind⟩ := (hm.exists_kind_iff h.kind).mpr ⟨h, hmem, rfl⟩
    exact hkind ▸ hall h' hmem'
  · intro hall h hmem
    obtain ⟨h', hmem', hkind⟩ := (hm.exists_kind_iff h.kind).mp ⟨h, hmem, rfl⟩
    exact hkind ▸ hall h' hmem'

/-- An alias whose hints agree gives a kind its value where no plan before has that. -/
theorem Merged.mem_of_earliest {before after : List ResolvedAlias} {a : ResolvedAlias}
    {kind value : String}
    (hm : Merged primary ((before ++ a :: after).flatMap pairsOf) m droppedAliasHints)
    (hprimary : ∀ h ∈ hintsOf primary, h.kind ≠ kind)
    (hbefore : ∀ b ∈ before, ∀ h ∈ hintsOf b.plan.targets, h.kind ≠ kind)
    (hself : NoConflict (hintsOf a.plan.targets))
    (hmem : { kind, value } ∈ hintsOf a.plan.targets) :
    { kind, value } ∈ hintsOf m.targets.values := by
  have hnone : firstValue (hintsOf primary) kind = none := firstValue_eq_none.mpr hprimary
  have hnone' : firstValue (aliasHints (before.flatMap pairsOf)) kind = none := by
    refine firstValue_eq_none.mpr fun h hin => ?_
    obtain ⟨t, ht, hin⟩ := mem_hintsOf.mp hin
    obtain ⟨e, he, rfl⟩ := List.mem_map.mp ht
    obtain ⟨b, hb, he⟩ := List.mem_flatMap.mp he
    obtain ⟨t', ht', rfl⟩ := List.mem_map.mp he
    exact hbefore b hb h (mem_hintsOf.mpr ⟨t', ht', hin⟩)
  rw [hm.mem_hintsOf_values, hm.first, List.flatMap_append, List.flatMap_cons, aliasHints_append,
    aliasHints_append, aliasHints_pairsOf, firstValue_append, firstValue_append,
    firstValue_append, hnone, hnone', firstValue_of_mem hself hmem]
  rfl

end Values

/-- **A plan is extended as it should be, if and only if no kind is the name of a property that
every object inherits.** -/
theorem extendsPrimary_iff (input : ExtendInput)
    (resolveAlias : String → Option IdentityProviderPlan)
    (hresolve : input.resolveAlias = some resolveAlias)
    (hconflict : NoConflict (hintsOf (targetsOf input.primaryPlan))) :
    (∃ r, extendProviderPlanWithAliases input = .ok r ∧ ExtendsPrimary input resolveAlias r)
      ↔ ∀ h ∈ supplied input resolveAlias, h.kind ∉ objectPrototype := by
  obtain ⟨r, m, hr, htargets, hm⟩ := extend_eq hresolve hconflict
  have hcollect := hm.exists_collected_iff htargets
  constructor
  · rintro ⟨r', hr', hlaw⟩
    obtain rfl : r = r' := Except.ok.inj (hr.symm.trans hr')
    exact hcollect.mp hlaw.collected
  · intro hkinds
    refine ⟨r, hr, ?_⟩
    constructor
    case noConflict =>
      rw [htargets]
      exact hm.noConflict_values
    case collected => exact hcollect.mpr hkinds
    case kept =>
      intro t ht
      obtain ⟨t', ht', hsub⟩ := hm.kept t ht
      rw [htargets]
      exact ⟨t', (hm.of_get? ht').1, (hm.of_get? ht').2, hsub⟩
    case providers =>
      intro p
      rw [htargets, hm.exists_provider_iff, hm.providers]
      refine or_congr_right ⟨?_, ?_⟩
      · rintro ⟨e, he, hp⟩
        obtain ⟨a, ha, he⟩ := List.mem_flatMap.mp he
        obtain ⟨t, ht, rfl⟩ := List.mem_map.mp he
        exact ⟨a, ha, t, ht, hp⟩
      · rintro ⟨a, ha, t, ht, hp⟩
        exact ⟨(a.iid, t), List.mem_flatMap.mpr ⟨a, ha, List.mem_map_of_mem ht⟩, hp⟩
    case earliest =>
      intro kind value before a after hsplit hprimary hbefore hself hmem
      rw [hsplit] at hm
      rw [htargets]
      exact hm.mem_of_earliest hprimary hbefore hself hmem
    case placed =>
      intro a ha t ht h hin
      have he : (a.iid, t) ∈ (aliasesOf input resolveAlias).flatMap pairsOf :=
        List.mem_flatMap.mpr ⟨a, ha, List.mem_map_of_mem ht⟩
      rw [htargets]
      refine (hm.placed _ he h hin).imp ?_ ?_
      · rintro ⟨t', ht', hin'⟩
        exact ⟨t', (hm.of_get? ht').1, (hm.of_get? ht').2, hin'⟩
      · rintro ⟨d, hd, hiid, rfl⟩
        refine ⟨d.keptValue, hm.mem_hintsOf_values.mpr (hm.keptValue d hd), ?_⟩
        have hiid' : d.iid = a.iid := hiid
        have hone := filter_key_eq hm.once hd
        simp only [Prod.mk.injEq, hiid'] at hone
        rw [hone, ← hiid']

/-- A track that the catalogue knows by its recording. -/
def recordingPlan (kind : String) : IdentityProviderPlan where
  status := .planned
  targets :=
    [{ provider := "musicbrainz", capabilities := ["musicbrainz"],
       identifierHints := [{ kind, value := "b1a9c0e9" }] }]
  provenance := { producer := "registry", version := "1" }

/-- The track has an alias, which cannot be resolved. -/
def recordingInput (kind : String) : ExtendInput where
  primaryPlan := some (recordingPlan kind)
  aliasIids := ["int:isrc:USRC17607839"]
  resolveAlias := some fun _ => none

/-- **A hint of the kind `constructor` is refused**, and contradicts no other one. -/
theorem constructor_not_extendsPrimary :
    NoConflict (hintsOf (targetsOf (recordingInput "constructor").primaryPlan))
      ∧ ¬ ∃ r, extendProviderPlanWithAliases (recordingInput "constructor") = .ok r
        ∧ ExtendsPrimary (recordingInput "constructor") (fun _ => none) r := by
  refine ⟨by unfold NoConflict; decide, ?_⟩
  rintro ⟨r, hr, hlaw⟩
  have hextend : extendProviderPlanWithAliases (recordingInput "constructor")
      = .ok { providerPlan := some (recordingPlan "constructor")
              skippedAliasIids := 1
              droppedAliasHints := [] } := rfl
  obtain rfl := Except.ok.inj (hextend.symm.trans hr)
  obtain ⟨identifiers, hcollect⟩ := hlaw.collected
  have hthrow : collectIdentityIdentifierHints (some (recordingPlan "constructor"))
      = .error (conflicting "constructor") := rfl
  cases hthrow.symm.trans hcollect

theorem extendsPrimary_iff_mbid :
    (∃ r, extendProviderPlanWithAliases (recordingInput "mbid") = .ok r
        ∧ ExtendsPrimary (recordingInput "mbid") (fun _ => none) r)
      ↔ ∀ h ∈ supplied (recordingInput "mbid") (fun _ => none), h.kind ∉ objectPrototype :=
  extendsPrimary_iff (recordingInput "mbid") (fun _ => none) rfl (by unfold NoConflict; decide)

end ProviderPlans
