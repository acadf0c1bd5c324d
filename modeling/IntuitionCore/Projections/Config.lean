import IntuitionCore.Projections.Projection

/-!
# What a process runs

Two lists of names decide which projections a process runs: an allow list if
it is not empty, else a deny list if it is not empty, else everything runs. The
sharded ones are run once for each shard.
-/

/-- The part of the configuration that the PostgreSQL projections depend on. -/
structure ProjectionsConfig where
  batchSize : ℕ := 500
  positionTrackingShards : ℕ := 4
  enabledProjections : List String := []
  disabledProjections : List String := []
  deriving DecidableEq, Repr

namespace ProjectionsConfig

/-- Whether a projection is to be run. -/
def isProjectionEnabled (config : ProjectionsConfig) (name : String) : Bool :=
  if !config.enabledProjections.isEmpty then
    config.enabledProjections.any fun n => n == name
  else if !config.disabledProjections.isEmpty then
    !config.disabledProjections.any fun n => n == name
  else true

/-- The projections a process runs, in the order it starts them. -/
def buildPgProjections (config : ProjectionsConfig) (kgPool : Bool) : List PgProjection :=
  let vaultShards := config.positionTrackingShards
  let push (name : String) (projections : List PgProjection) : List PgProjection :=
    if config.isProjectionEnabled name then projections else []
  push "event_log" [.eventLog]
    ++ push "account_registry" [.accountRegistry]
    ++ push "vault_holders_index" [.vaultHoldersIndex]
    ++ push "signals_analytics" [.signalsAnalytics]
    ++ push "term_aggregates" [.termAggregates]
    ++ push "protocol_stats" [.protocolStats]
    ++ push "activity_marker" [.activityMarker]
    ++ push "leaderboard_marker" [.leaderboardMarker]
    ++ (List.range vaultShards).flatMap (fun shardId =>
      push "vault_state" [.vaultState shardId vaultShards]
        ++ push "position_tracking" [.positionTracking shardId vaultShards])
    ++ push "vault_state:dual"
      ((List.range vaultShards).map fun shardId => .vaultStateDual shardId vaultShards kgPool)
    ++ push "vault_holders_index:dual" [.vaultHoldersIndexDual kgPool]
    ++ if kgPool then push "atom_context:dual" [.atomContextDual] else []

variable {config : ProjectionsConfig} {kgPool : Bool} {p q : PgProjection}

/-- **A process runs the projections that are enabled by name and fit it.** -/
theorem mem_buildPgProjections :
    p ∈ config.buildPgProjections kgPool
      ↔ config.isProjectionEnabled p.name = true
        ∧ p.Fits config.positionTrackingShards kgPool := by
  have hpush : ∀ (b : Bool) (l : List PgProjection),
      p ∈ (if b then l else []) ↔ b = true ∧ p ∈ l := by
    intro b l
    cases b <;> simp
  unfold buildPgProjections
  simp only [List.mem_append, List.mem_flatMap, List.mem_range, hpush, List.mem_map,
    List.mem_singleton]
  cases p with
  | vaultState | positionTracking | vaultStateDual =>
    simp [PgProjection.name, PgProjection.Fits]
    grind
  | atomContextDual =>
    simp [PgProjection.name, PgProjection.Fits]
    exact and_comm
  | _ => simp [PgProjection.name, PgProjection.Fits]

/-- Two workers of a process are the same if their marks are. -/
theorem eq_of_checkpointName_eq (hp : p ∈ config.buildPgProjections kgPool)
    (hq : q ∈ config.buildPgProjections kgPool)
    (h : p.checkpointName = q.checkpointName) : p = q :=
  PgProjection.eq_of_checkpointName_eq (mem_buildPgProjections.mp hp).2
    (mem_buildPgProjections.mp hq).2 h

end ProjectionsConfig
