import IntuitionCore.Curves.Inverse
import IntuitionCore.Curves.Splitting
import IntuitionCore.Curves.RoundTrip
import IntuitionCore.Library.Redelivery
import IntuitionCore.Projections.Shard
import IntuitionCore.Projections.Projection
import IntuitionCore.Projections.Config
import IntuitionCore.Projections.Worker
import IntuitionCore.Projections.ReadModel
import IntuitionCore.Projections.Vaults
import IntuitionCore.Projections.Positions
import IntuitionCore.Projections.Accumulation
import IntuitionCore.Projections.Replay
import IntuitionCore.Projections.Resharding
import IntuitionCore.Ingestion.Storage
import IntuitionCore.Ingestion.Visibility
import IntuitionCore.Projections.Overlap
import IntuitionCore.Ingestion.Contract
import IntuitionCore.Ingestion.Readers
import IntuitionCore.Ingestion.DualWrite
import IntuitionCore.Ingestion.Deliveries
import IntuitionCore.Projections.Copies
import IntuitionCore.Library.Tally
import IntuitionCore.Surreal.Sink
import IntuitionCore.Surreal.Flows
import IntuitionCore.Surreal.Tallies
import IntuitionCore.Library.Insertion
import IntuitionCore.Entities.Plan
import IntuitionCore.Entities.Stores
import IntuitionCore.Entities.Convergence
import IntuitionCore.Entities.Actions
import IntuitionCore.Entities.Creation
import IntuitionCore.Leaderboard.Repo
import IntuitionCore.Leaderboard.Marks
import IntuitionCore.Leaderboard.Refresh
import IntuitionCore.Projections.HolderCount
import IntuitionCore.Library.Totals
import IntuitionCore.Projections.Amounts
import IntuitionCore.Projections.TotalsOrder
import IntuitionCore.Projections.PositionOrder
import IntuitionCore.Projections.Profit
import IntuitionCore.Library.Reflected
import IntuitionCore.Projections.HoldersOrder
import IntuitionCore.Projections.Attribution
import IntuitionCore.Projections.Sharding
import IntuitionCore.Surreal.DeadLetters
import IntuitionCore.Leaderboard.MarkerBatches
import IntuitionCore.Projections.AccountRegistry
import IntuitionCore.Library.RunningTotals
import IntuitionCore.Leaderboard.CumulativePositions
import IntuitionCore.Resilience.CircuitBreaker
import IntuitionCore.Resilience.Watchdog
import IntuitionCore.Projections.TermAggregates
import IntuitionCore.Ingestion.Alignment
import IntuitionCore.Activity.AdvisoryLock
import IntuitionCore.Activity.Marks
import IntuitionCore.Activity.Rollups
import IntuitionCore.Surreal.Literals
import IntuitionCore.Surreal.Drafts
import IntuitionCore.Library.Lease
import IntuitionCore.Library.CheckThenAct
import IntuitionCore.Processing.Nodes
import IntuitionCore.Processing.Statements
import IntuitionCore.Processing.Fencing
import IntuitionCore.Processing.Sweeps
import IntuitionCore.Processing.Freshness
import IntuitionCore.Processing.Orphans
import IntuitionCore.Processing.DeadLetters
import IntuitionCore.Entities.Artifacts
import IntuitionCore.Entities.TermIds
import IntuitionCore.Workers.Scheduler
import IntuitionCore.Workers.Shutdown
import IntuitionCore.Workers.CircuitBreaker
import IntuitionCore.Curves.RoundTripLoss
import IntuitionCore.Curves.Capacity
import IntuitionCore.Curves.FeeMonotone
import IntuitionCore.Workers.Lifecycle
import IntuitionCore.Leaderboard.PeriodProfit
import IntuitionCore.Api.Access
import IntuitionCore.Api.Hidden
import IntuitionCore.Entities.ContextRuns
import IntuitionCore.Ingestion.Lossless
import IntuitionCore.Resilience.Retry
import IntuitionCore.Resilience.Probes
import IntuitionCore.Resilience.Supervisor
import IntuitionCore.Resilience.ReconnectingSurreal
import IntuitionCore.Surreal.Escaping
import IntuitionCore.Ingestion.Paging
import IntuitionCore.Activity.Rfm
import IntuitionCore.Activity.FunnelRuns
import IntuitionCore.Activity.AffinityCycles
import IntuitionCore.Leaderboard.MarkToMarket
import IntuitionCore.Entities.NodeIdentifiers
import IntuitionCore.Processing.Candidates
import IntuitionCore.Workers.ProviderPlans
import IntuitionCore.Workers.IdentityLadder
import IntuitionCore.Workers.Reenrichment
import IntuitionCore.Workers.MaintenanceOptions
import IntuitionCore.Workers.Reconciliation
import IntuitionCore.Timescale.Verification
import IntuitionCore.Entities.ArtifactHash
import IntuitionCore.Timescale.Statements
import IntuitionCore.Entities.RawFallback
import IntuitionCore.Resilience.DualRetry
import IntuitionCore.Resilience.DualProtocol
import IntuitionCore.Leaderboard.AccountStats
import IntuitionCore.Library.FixedWindow
import IntuitionCore.Api.RateWindows
import IntuitionCore.Library.RowBags
import IntuitionCore.Api.Paging
import IntuitionCore.Api.Search
import IntuitionCore.AtomRules.Artifacts
import IntuitionCore.AtomRules.Engine
import IntuitionCore.AtomRules.ServiceHosts
import IntuitionCore.Library.Consumer
import IntuitionCore.Analytics.EventLog
import IntuitionCore.Analytics.ProtocolStats
import IntuitionCore.Analytics.Service
import IntuitionCore.Analytics.Reconciliation
import IntuitionCore.Scope.Config
import IntuitionCore.Scope.Sufficiency
import IntuitionCore.Services.BatchStore
import IntuitionCore.Library.RowLocks
import IntuitionCore.Leaderboard.Cache
import IntuitionCore.Leaderboard.CacheRuns
import IntuitionCore.Library.SharedCells
import IntuitionCore.Surreal.Graph
import IntuitionCore.Surreal.GraphRuns
import IntuitionCore.Surreal.Integrity
import IntuitionCore.Identity.AtomView
import IntuitionCore.Identity.Classification
import IntuitionCore.Identity.Runs
