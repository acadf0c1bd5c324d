import Mathlib.Data.List.Perm.Subperm
import Mathlib.Data.String.Basic

/-!
# Indexing scopes

An operator describes in a scope what is to be indexed: which events of the contract,
from which block to which, and which projections are to be run. Presets fill in what is
not said. A scope is checked as a whole before anything is made of it: what a projection
needs has to be ingested, and what is excluded may not be included as well.

The parts of a scope that no check of this kind reads, and what a URL is, are left to the
schema library.
-/

/-- The events of the contract. -/
inductive MultiVaultEventName where
  | atomCreated
  | tripleCreated
  | deposited
  | redeemed
  | sharePriceChanged
  | protocolFeeAccrued
  deriving DecidableEq, Repr

def MultiVaultEventName.name : MultiVaultEventName → String
  | atomCreated => "AtomCreated"
  | tripleCreated => "TripleCreated"
  | deposited => "Deposited"
  | redeemed => "Redeemed"
  | sharePriceChanged => "SharePriceChanged"
  | protocolFeeAccrued => "ProtocolFeeAccrued"

inductive IndexingScopePreset where
  | full
  | kgOnly
  | marketOnly
  | noAnalytics
  | music
  | podcasts
  | musicAndPodcasts
  deriving DecidableEq, Repr

def IndexingScopePreset.name : IndexingScopePreset → String
  | full => "full"
  | kgOnly => "kg-only"
  | marketOnly => "market-only"
  | noAnalytics => "no-analytics"
  | music => "music"
  | podcasts => "podcasts"
  | musicAndPodcasts => "music-and-podcasts"

/-- The projections that a scope can name, in the order of the schema. -/
inductive ProjectionName where
  | eventLog
  | accountRegistry
  | vaultHoldersIndex
  | signalsAnalytics
  | termAggregates
  | protocolStats
  | activityMarker
  | leaderboardMarker
  | vaultState
  | positionTracking
  | vaultStateDual
  | vaultHoldersIndexDual
  | leaderboardRefresh
  | funnelTracker
  | userActivityBatch
  | coreEntities
  deriving DecidableEq, Repr

namespace ProjectionName

def name : ProjectionName → String
  | eventLog => "event_log"
  | accountRegistry => "account_registry"
  | vaultHoldersIndex => "vault_holders_index"
  | signalsAnalytics => "signals_analytics"
  | termAggregates => "term_aggregates"
  | protocolStats => "protocol_stats"
  | activityMarker => "activity_marker"
  | leaderboardMarker => "leaderboard_marker"
  | vaultState => "vault_state"
  | positionTracking => "position_tracking"
  | vaultStateDual => "vault_state:dual"
  | vaultHoldersIndexDual => "vault_holders_index:dual"
  | leaderboardRefresh => "leaderboard_refresh"
  | funnelTracker => "funnel_tracker"
  | userActivityBatch => "user_activity_batch"
  | coreEntities => "core_entities"

/-- All names, as the schema lists them. -/
def options : List ProjectionName :=
  [eventLog, accountRegistry, vaultHoldersIndex, signalsAnalytics, termAggregates, protocolStats,
    activityMarker, leaderboardMarker, vaultState, positionTracking, vaultStateDual,
    vaultHoldersIndexDual, leaderboardRefresh, funnelTracker, userActivityBatch, coreEntities]

theorem mem_options (p : ProjectionName) : p ∈ options := by
  cases p <;> decide

end ProjectionName

inductive ProcessingClassification where
  | music
  | podcast
  deriving DecidableEq, Repr

/-! ## Configurations -/

structure EventsScope where
  includeEvents : Option (List MultiVaultEventName) := none
  excludeEvents : List MultiVaultEventName := []
  deriving DecidableEq, Repr

structure IngestionScope where
  chainId : ℤ
  rpcUrl : String
  contract : String
  startBlock : ℤ
  endBlock : Option ℤ := none
  events : EventsScope := {}
  deriving DecidableEq, Repr

structure ProjectionsScope where
  bundle : Option IndexingScopePreset := none
  includeProjections : Option (List ProjectionName) := none
  excludeProjections : List ProjectionName := []
  deriving DecidableEq, Repr

structure IndexingScopeConfig where
  preset : IndexingScopePreset := .full
  ingestion : IngestionScope
  projections : ProjectionsScope := {}
  classifications : List ProcessingClassification := []
  deriving DecidableEq, Repr

/-- A finding of a check: what is wrong, and where. -/
structure ScopeIssue where
  message : String
  path : List String
  deriving DecidableEq, Repr

namespace IndexingScopeConfig

/-! ## What presets fill in -/

/-- All events, in the order of the schema. -/
def ALL_EVENTS : List MultiVaultEventName :=
  [.atomCreated, .tripleCreated, .deposited, .redeemed, .sharePriceChanged, .protocolFeeAccrued]

/-- The events of a preset. -/
def eventsForPreset : IndexingScopePreset → List MultiVaultEventName
  | .full => ALL_EVENTS
  | .kgOnly => [.atomCreated, .tripleCreated]
  | .marketOnly => [.deposited, .redeemed, .sharePriceChanged, .protocolFeeAccrued]
  | .noAnalytics => ALL_EVENTS
  | .music => [.atomCreated, .tripleCreated]
  | .podcasts => [.atomCreated, .tripleCreated]
  | .musicAndPodcasts => [.atomCreated, .tripleCreated]

/-- The projections of a bundle. -/
def projectionsForBundle : IndexingScopePreset → List ProjectionName
  | .full =>
    [.eventLog, .accountRegistry, .vaultHoldersIndex, .signalsAnalytics, .termAggregates,
      .protocolStats, .activityMarker, .leaderboardMarker, .vaultState, .positionTracking,
      .leaderboardRefresh, .funnelTracker, .userActivityBatch, .coreEntities]
  | .kgOnly => [.eventLog, .accountRegistry, .coreEntities]
  | .marketOnly =>
    [.eventLog, .accountRegistry, .vaultHoldersIndex, .signalsAnalytics, .leaderboardMarker,
      .vaultState, .positionTracking, .vaultStateDual, .vaultHoldersIndexDual,
      .leaderboardRefresh]
  | .noAnalytics =>
    [.eventLog, .accountRegistry, .vaultHoldersIndex, .termAggregates, .protocolStats,
      .activityMarker, .vaultState, .positionTracking, .coreEntities]
  | .music => [.eventLog, .accountRegistry, .coreEntities]
  | .podcasts => [.eventLog, .accountRegistry, .coreEntities]
  | .musicAndPodcasts => [.eventLog, .accountRegistry, .coreEntities]

/-- The events that a bundle requires. -/
def eventsForProjectionBundle : IndexingScopePreset → List MultiVaultEventName
  | .full => ALL_EVENTS
  | .kgOnly => [.atomCreated, .tripleCreated]
  | .marketOnly => [.deposited, .redeemed, .sharePriceChanged]
  | .noAnalytics => ALL_EVENTS
  | .music => [.atomCreated, .tripleCreated]
  | .podcasts => [.atomCreated, .tripleCreated]
  | .musicAndPodcasts => [.atomCreated, .tripleCreated]

/-- The events that a projection requires. -/
def eventsForProjection : ProjectionName → List MultiVaultEventName
  | .eventLog => []
  | .accountRegistry => []
  | .vaultHoldersIndex => [.deposited, .redeemed]
  | .signalsAnalytics => [.deposited, .redeemed]
  | .termAggregates => [.tripleCreated, .sharePriceChanged]
  | .protocolStats => ALL_EVENTS
  | .activityMarker => [.atomCreated, .tripleCreated, .deposited, .redeemed]
  | .leaderboardMarker => [.deposited, .redeemed, .sharePriceChanged]
  | .vaultState => [.deposited, .redeemed, .sharePriceChanged]
  | .positionTracking => [.deposited, .redeemed]
  | .vaultStateDual => [.deposited, .redeemed, .sharePriceChanged]
  | .vaultHoldersIndexDual => [.deposited, .redeemed]
  | .leaderboardRefresh => [.deposited, .redeemed, .sharePriceChanged]
  | .funnelTracker => [.atomCreated, .tripleCreated, .deposited]
  | .userActivityBatch => [.atomCreated, .tripleCreated, .deposited, .redeemed]
  | .coreEntities => [.atomCreated, .tripleCreated]

def presetClassifications : IndexingScopePreset → List ProcessingClassification
  | .full | .kgOnly | .marketOnly | .noAnalytics => []
  | .music => [.music]
  | .podcasts => [.podcast]
  | .musicAndPodcasts => [.music, .podcast]

/-! ## Resolution -/

variable (config : IndexingScopeConfig)

/-- Drop the events that are excluded. -/
def applyEventExclusions (include' exclude : List MultiVaultEventName) : List MultiVaultEventName :=
  include'.filter fun event => !exclude.contains event

/-- The required events that are not among some. -/
def missingEvents (requiredEvents includeEvents : List MultiVaultEventName) :
    List MultiVaultEventName :=
  requiredEvents.filter fun event => !includeEvents.contains event

/-- The events that are included, or those of the preset. -/
def eventInclude : List MultiVaultEventName :=
  config.ingestion.events.includeEvents.getD (eventsForPreset config.preset)

def resolveEvents : List MultiVaultEventName :=
  applyEventExclusions config.eventInclude config.ingestion.events.excludeEvents

def resolveProjectionBundle : IndexingScopePreset :=
  config.projections.bundle.getD config.preset

/-- The projections that are included, or those of the bundle. -/
def projectionInclude : List ProjectionName :=
  config.projections.includeProjections.getD
    (projectionsForBundle config.resolveProjectionBundle)

def resolveEnabledProjections : List ProjectionName :=
  config.projectionInclude.filter fun p => !config.projections.excludeProjections.contains p

/-! ## Checks -/

/-- The names of some events, between commas. -/
def joinEvents (events : List MultiVaultEventName) : String :=
  ", ".intercalate (events.map MultiVaultEventName.name)

/-- The last block is not before the first one. -/
def blockRangeIssues : List ScopeIssue :=
  match config.ingestion.endBlock with
  | some endBlock =>
    if endBlock < config.ingestion.startBlock then
      [⟨"end_block must be greater than or equal to start_block",
        ["scope", "ingestion", "end_block"]⟩]
    else []
  | none => []

/-- What is excluded is not included. -/
def overlapIssues : List ScopeIssue :=
  let overlap := config.ingestion.events.excludeEvents.filter fun event =>
    config.eventInclude.contains event
  if overlap.length > 0 then
    [⟨s!"events cannot be both included and excluded: {joinEvents overlap}",
      ["scope", "ingestion", "events"]⟩]
  else []

/-- Some event is left. -/
def noEventIssues : List ScopeIssue :=
  if config.resolveEvents.length = 0 then
    [⟨"events include/exclude must resolve to at least one event",
      ["scope", "ingestion", "events"]⟩]
  else []

/-- The bundle has the events it requires. -/
def bundleIssues : List ScopeIssue :=
  let projectionBundle := config.resolveProjectionBundle
  let required := eventsForProjectionBundle projectionBundle
  let missing := missingEvents required config.resolveEvents
  if missing.length > 0 then
    [⟨"projection bundle \"" ++ projectionBundle.name ++ "\" requires events: "
        ++ joinEvents required ++ "; missing: " ++ joinEvents missing,
      ["scope", "projections", "bundle"]⟩]
  else []

/-- The enabled projections that lack events, with what they lack. -/
def projectionIssues : List (ProjectionName × List MultiVaultEventName) :=
  (config.resolveEnabledProjections.map fun projection =>
      (projection, missingEvents (eventsForProjection projection) config.resolveEvents)).filter
    fun issue => issue.2.length > 0

/-- Each enabled projection has the events it requires. -/
def projectionRequirementIssues : List ScopeIssue :=
  let issues := config.projectionIssues
  if issues.length > 0 then
    [⟨"projection event requirements are not satisfied: "
        ++ "; ".intercalate (issues.map fun issue =>
          issue.1.name ++ " missing " ++ joinEvents issue.2),
      ["scope", "projections"]⟩]
  else []

/-- What is wrong with a scope, in the order of the checks. -/
def superRefine : List ScopeIssue :=
  config.blockRangeIssues ++ config.overlapIssues ++ config.noEventIssues ++ config.bundleIssues
    ++ config.projectionRequirementIssues

/-- An EVM address: `0x` and forty hexadecimal digits. -/
def isEvmAddress (s : String) : Bool :=
  match s.toList with
  | '0' :: 'x' :: digits =>
    digits.length = 40 && digits.all fun c =>
      ('a' ≤ c && c ≤ 'f') || ('A' ≤ c && c ≤ 'F') || c.isDigit
  | _ => false

/-- What the schema asks of the fields themselves. Whether a text is a URL is decided by
the platform. -/
def fieldsValid (isUrl : String → Bool) : Bool :=
  0 < config.ingestion.chainId && isUrl config.ingestion.rpcUrl
    && isEvmAddress config.ingestion.contract && 0 ≤ config.ingestion.startBlock
    && (config.ingestion.endBlock.all fun n => 0 ≤ n)
    && config.ingestion.events.includeEvents.all fun events => 1 ≤ events.length

/-- A scope is accepted: the checks of the whole are made if the fields are valid. -/
def isAccepted (isUrl : String → Bool) : Bool :=
  config.fieldsValid isUrl && config.superRefine.isEmpty

/-! ## The dry run -/

/-- Whether a projection's output is to be had. -/
inductive OutputStatus where
  | available
  | unavailable
  deriving DecidableEq, Repr

/-- Why it is, or is not. -/
inductive OutputReason where
  | selected
  | excludedByConfig
  | notInBundle
  deriving DecidableEq, Repr

structure ProjectionOutputStatus where
  name : ProjectionName
  status : OutputStatus
  reason : OutputReason
  requiredEvents : List MultiVaultEventName
  deriving DecidableEq, Repr

def buildProjectionOutputs (projectionInclude projectionExclude : List ProjectionName) :
    List ProjectionOutputStatus :=
  ProjectionName.options.map fun projection =>
    if projectionExclude.contains projection then
      ⟨projection, .unavailable, .excludedByConfig, eventsForProjection projection⟩
    else if projectionInclude.contains projection then
      ⟨projection, .available, .selected, eventsForProjection projection⟩
    else ⟨projection, .unavailable, .notInBundle, eventsForProjection projection⟩

/-- What a dry run says about the projections. -/
def outputs : List ProjectionOutputStatus :=
  buildProjectionOutputs config.projectionInclude config.projections.excludeProjections

/-- The classifications of a scope, or of its preset. -/
def processingClassifications : List ProcessingClassification :=
  if config.classifications.length > 0 then config.classifications
  else presetClassifications config.preset

def buildWarnings (rpcUrlWasRedacted : Bool) : List String :=
  (if rpcUrlWasRedacted then
      ["RPC URL credentials or token-like query parameters were redacted from dry-run output."]
    else [])
  ++ (if config.processingClassifications.length > 0 then
      ["Domain filters are processing-scope only. "
        ++ "rindexer will still ingest the configured chain events."]
    else [])
  ++ (if config.resolveProjectionBundle = .marketOnly
        ∧ config.resolveEvents.any fun event =>
          event = .atomCreated || event = .tripleCreated then
      ["market-only projection scope includes identity events only if explicitly configured."]
    else [])
  ++ if config.preset = .kgOnly
        ∧ config.resolveEvents.length < (eventsForPreset .kgOnly).length then
      ["kg-only scopes need AtomCreated and TripleCreated for complete graph identity."]
    else []

/-! ## What an accepted scope is -/

/-- **A scope is coherent**: its blocks are a range, nothing included is excluded, there is
an event, and the bundle and the enabled projections have the events they require. -/
structure Coherent : Prop where
  blockRange : ∀ n ∈ config.ingestion.endBlock, config.ingestion.startBlock ≤ n
  disjoint : ∀ event ∈ config.ingestion.events.excludeEvents, event ∉ config.eventInclude
  nonempty : config.eventInclude ≠ []
  bundle : ∀ event ∈ eventsForProjectionBundle config.resolveProjectionBundle,
    event ∈ config.eventInclude
  projections : ∀ p ∈ config.resolveEnabledProjections, ∀ event ∈ eventsForProjection p,
    event ∈ config.eventInclude

variable {config}

theorem missingEvents_eq_nil {required include' : List MultiVaultEventName} :
    missingEvents required include' = [] ↔ ∀ event ∈ required, event ∈ include' := by
  simp [missingEvents, List.filter_eq_nil_iff]

/-- **Exclusions of what is not included drop nothing.** -/
theorem resolveEvents_eq
    (h : ∀ event ∈ config.ingestion.events.excludeEvents, event ∉ config.eventInclude) :
    config.resolveEvents = config.eventInclude := by
  refine List.filter_eq_self.mpr fun event hevent => ?_
  rw [Bool.not_eq_true', List.contains_eq_mem]
  exact decide_eq_false fun hex => h event hex hevent

theorem blockRangeIssues_eq_nil : config.blockRangeIssues = []
    ↔ ∀ n ∈ config.ingestion.endBlock, config.ingestion.startBlock ≤ n := by
  unfold blockRangeIssues
  cases config.ingestion.endBlock with
  | none => simp
  | some n => simp

theorem overlapIssues_eq_nil : config.overlapIssues = []
    ↔ ∀ event ∈ config.ingestion.events.excludeEvents, event ∉ config.eventInclude := by
  unfold overlapIssues
  simp

theorem bundleIssues_eq_nil : config.bundleIssues = []
    ↔ ∀ event ∈ eventsForProjectionBundle config.resolveProjectionBundle,
      event ∈ config.resolveEvents := by
  rw [← missingEvents_eq_nil]
  unfold bundleIssues
  simp

theorem projectionRequirementIssues_eq_nil : config.projectionRequirementIssues = []
    ↔ ∀ p ∈ config.resolveEnabledProjections, ∀ event ∈ eventsForProjection p,
      event ∈ config.resolveEvents := by
  simp only [← missingEvents_eq_nil]
  unfold projectionRequirementIssues projectionIssues
  simp

/-- **Nothing is wrong with a scope exactly if it is coherent.** -/
theorem superRefine_eq_nil_iff : config.superRefine = [] ↔ config.Coherent := by
  have hnone : config.noEventIssues = [] ↔ config.resolveEvents ≠ [] := by
    unfold noEventIssues
    simp
  unfold superRefine
  simp only [List.append_eq_nil_iff, blockRangeIssues_eq_nil, overlapIssues_eq_nil, hnone,
    bundleIssues_eq_nil, projectionRequirementIssues_eq_nil]
  constructor
  · rintro ⟨⟨⟨⟨hrange, hdisjoint⟩, hne⟩, hbundle⟩, hprojections⟩
    rw [resolveEvents_eq hdisjoint] at hne hbundle hprojections
    exact ⟨hrange, hdisjoint, hne, hbundle, hprojections⟩
  · rintro ⟨hrange, hdisjoint, hne, hbundle, hprojections⟩
    rw [resolveEvents_eq hdisjoint]
    exact ⟨⟨⟨⟨hrange, hdisjoint⟩, hne⟩, hbundle⟩, hprojections⟩

/-- An accepted scope is coherent. -/
theorem coherent_of_isAccepted {isUrl : String → Bool} (h : config.isAccepted isUrl = true) :
    config.Coherent :=
  superRefine_eq_nil_iff.mp (List.isEmpty_iff.mp (Bool.and_eq_true_iff.mp h).2)

/-! ## Presets -/

/-- What the projections of a bundle require, the bundle requires. -/
theorem required_of_bundle (bundle : IndexingScopePreset) :
    ∀ p ∈ projectionsForBundle bundle, ∀ event ∈ eventsForProjection p,
      event ∈ eventsForProjectionBundle bundle := by
  cases bundle <;> decide

/-- What a bundle requires is among the events of the preset of its name. -/
theorem eventsForProjectionBundle_subset (preset : IndexingScopePreset) :
    ∀ event ∈ eventsForProjectionBundle preset, event ∈ eventsForPreset preset := by
  cases preset <;> decide

/-- **Without a list of projections, the bundle is all that has to be checked**: whatever is
excluded, the projections that are left have what they require. -/
theorem projections_of_bundle (hnone : config.projections.includeProjections = none)
    (hbundle : ∀ event ∈ eventsForProjectionBundle config.resolveProjectionBundle,
      event ∈ config.eventInclude) :
    ∀ p ∈ config.resolveEnabledProjections, ∀ event ∈ eventsForProjection p,
      event ∈ config.eventInclude := by
  intro p hp event hevent
  have hmem := List.mem_of_mem_filter hp
  unfold projectionInclude at hmem
  rw [hnone] at hmem
  exact hbundle event (required_of_bundle _ p hmem event hevent)

/-- **A preset is coherent by itself**, whatever projections are excluded from it. -/
theorem coherent_of_preset (hevents : config.ingestion.events = {})
    (hbundle : config.projections.bundle = none)
    (hinclude : config.projections.includeProjections = none)
    (hrange : ∀ n ∈ config.ingestion.endBlock, config.ingestion.startBlock ≤ n) :
    config.Coherent := by
  have hevent : config.eventInclude = eventsForPreset config.preset := by
    unfold eventInclude
    rw [hevents]
    rfl
  have hresolve : config.resolveProjectionBundle = config.preset := by
    unfold resolveProjectionBundle
    rw [hbundle]
    rfl
  have hrequired : ∀ event ∈ eventsForProjectionBundle config.resolveProjectionBundle,
      event ∈ config.eventInclude := by
    rw [hevent, hresolve]
    exact eventsForProjectionBundle_subset config.preset
  refine ⟨hrange, ?_, ?_, hrequired, projections_of_bundle hinclude hrequired⟩
  · rw [hevents]
    simp
  · rw [hevent]
    cases config.preset <;> decide

/-- The scope of the market by its preset. -/
def marketScope : IndexingScopeConfig where
  preset := .marketOnly
  ingestion :=
    { chainId := 13579
      rpcUrl := "https://testnet.rpc.intuition.systems"
      contract := "0x0000000000000000000000000000000000000001"
      startBlock := 0 }

example : marketScope.Coherent :=
  coherent_of_preset rfl rfl rfl (by simp [marketScope])

/-! ## What a dry run says -/

/-- A projection's output is to be had exactly if it is enabled, and then everything it
requires is ingested. -/
theorem Coherent.available_iff (h : config.Coherent) :
    config.outputs.map ProjectionOutputStatus.name = ProjectionName.options
      ∧ ∀ output ∈ config.outputs,
        (output.status = .available ↔ output.name ∈ config.resolveEnabledProjections)
        ∧ (output.status = .available →
          ∀ event ∈ output.requiredEvents, event ∈ config.resolveEvents) := by
  have hresolve := resolveEvents_eq h.disjoint
  have hne : OutputStatus.unavailable ≠ .available := by decide
  refine ⟨?_, fun output hout => ?_⟩
  · unfold outputs buildProjectionOutputs
    rw [List.map_map]
    refine (List.map_congr_left fun p _ => ?_).trans (List.map_id _)
    show ProjectionOutputStatus.name (if _ then _ else if _ then _ else _) = p
    split
    · rfl
    · split <;> rfl
  · obtain ⟨p, -, rfl⟩ := List.mem_map.mp hout
    have henabled : p ∈ config.resolveEnabledProjections
        ↔ config.projectionInclude.contains p = true
          ∧ ¬ config.projections.excludeProjections.contains p = true := by
      unfold resolveEnabledProjections
      simp [List.mem_filter]
    by_cases hex : config.projections.excludeProjections.contains p = true
    · rw [if_pos hex]
      exact ⟨iff_of_false hne fun hp => (henabled.mp hp).2 hex, fun hs => absurd hs hne⟩
    · rw [if_neg hex]
      by_cases hin : config.projectionInclude.contains p = true
      · rw [if_pos hin]
        have hp := henabled.mpr ⟨hin, hex⟩
        exact ⟨iff_of_true rfl hp, fun _ event hevent => hresolve ▸ h.projections p hp event hevent⟩
      · rw [if_neg hin]
        exact ⟨iff_of_false hne fun hp => hin (henabled.mp hp).1, fun hs => absurd hs hne⟩

/-- A bundle requires two events at least. -/
theorem two_le_required (bundle : IndexingScopePreset) :
    2 ≤ (eventsForProjectionBundle bundle).length ∧ (eventsForProjectionBundle bundle).Nodup := by
  cases bundle <;> decide

/-- **The last of the warnings is never given**: a scope that lacks one of the two events of
`kg-only` is not accepted, whatever bundle it has. -/
theorem Coherent.no_kgOnly_warning (h : config.Coherent) (wasRedacted : Bool) :
    "kg-only scopes need AtomCreated and TripleCreated for complete graph identity."
      ∉ config.buildWarnings wasRedacted := by
  have hlength : 2 ≤ config.resolveEvents.length := by
    obtain ⟨htwo, hnodup⟩ := two_le_required config.resolveProjectionBundle
    rw [resolveEvents_eq h.disjoint]
    exact htwo.trans (List.subperm_of_subset hnodup h.bundle).length_le
  have hfew : ¬ config.resolveEvents.length < (eventsForPreset .kgOnly).length :=
    Nat.not_lt.mpr hlength
  unfold buildWarnings
  simp only [hfew, and_false, if_false, List.append_nil, List.mem_append, not_or]
  refine ⟨⟨?_, ?_⟩, ?_⟩ <;> split <;> simp

/-- **What a dry run says of an accepted scope**: the events that are ingested are those that
are included, as no exclusion drops any; every projection is listed once, its output is to be
had exactly if it is enabled, and then everything it requires is ingested; and the last of the
warnings is not given. -/
theorem dryRun_of_isAccepted {isUrl : String → Bool} (h : config.isAccepted isUrl = true) :
    config.resolveEvents = config.eventInclude
      ∧ config.outputs.map ProjectionOutputStatus.name = ProjectionName.options
      ∧ (∀ output ∈ config.outputs,
        (output.status = .available ↔ output.name ∈ config.resolveEnabledProjections)
        ∧ (output.status = .available →
          ∀ event ∈ output.requiredEvents, event ∈ config.resolveEvents))
      ∧ ∀ wasRedacted,
        "kg-only scopes need AtomCreated and TripleCreated for complete graph identity."
          ∉ config.buildWarnings wasRedacted := by
  have hcoherent := coherent_of_isAccepted h
  obtain ⟨hnames, houtputs⟩ := hcoherent.available_iff
  exact ⟨resolveEvents_eq hcoherent.disjoint, hnames, houtputs, hcoherent.no_kgOnly_warning⟩

theorem dryRun_of_isAccepted_marketScope :
    marketScope.isAccepted (fun _ => true) = true
      ∧ marketScope.resolveEvents = marketScope.eventInclude := by
  have haccepted : marketScope.isAccepted (fun _ => true) = true := by decide
  exact ⟨haccepted, (dryRun_of_isAccepted haccepted).1⟩

end IndexingScopeConfig
