import OrchestraAI.Access.ProjectAccess
import OrchestraAI.Access.RunAccess
import OrchestraAI.Access.TenantStore
import OrchestraAI.Cache.Isolation
import OrchestraAI.Checkpoint.Copies
import OrchestraAI.Checkpoint.Hydration
import OrchestraAI.Checkpoint.Manager
import OrchestraAI.Checkpoint.Rewind
import OrchestraAI.Checkpoint.Sealed
import OrchestraAI.Context.Compression
import OrchestraAI.Context.CompressionLimits
import OrchestraAI.Context.Fingerprint
import OrchestraAI.Context.Manager
import OrchestraAI.Context.Protection
import OrchestraAI.Context.SelectionClosure
import OrchestraAI.Coordination.Locks
import OrchestraAI.Core.AgentLoop
import OrchestraAI.Core.BudgetEvents
import OrchestraAI.Core.BudgetRules
import OrchestraAI.Core.Completion
import OrchestraAI.Core.Episode
import OrchestraAI.Core.EpisodeEnds
import OrchestraAI.Core.EpisodeLog
import OrchestraAI.Core.EpisodeRuns
import OrchestraAI.Core.Failover
import OrchestraAI.Core.Forks
import OrchestraAI.Core.LegalEdges
import OrchestraAI.Core.LiveRuns
import OrchestraAI.Core.LoopOperations
import OrchestraAI.Core.LoopShape
import OrchestraAI.Core.ModelBinding
import OrchestraAI.Core.Outcome
import OrchestraAI.Core.Pausing
import OrchestraAI.Core.RegistryInvariant
import OrchestraAI.Core.RunLimits
import OrchestraAI.Economics.AnalyticsConservation
import OrchestraAI.Economics.Billing
import OrchestraAI.Economics.BillingPartition
import OrchestraAI.Economics.CallCoverage
import OrchestraAI.Economics.FrozenEconomics
import OrchestraAI.Economics.HistoricalPrices
import OrchestraAI.Economics.ModelCallRecord
import OrchestraAI.Economics.PriceAgreement
import OrchestraAI.Economics.ProviderCharge
import OrchestraAI.Economics.Savings
import OrchestraAI.Economics.UnknownUsage
import OrchestraAI.Execution.AddressSpellings
import OrchestraAI.Execution.ApprovalSafety
import OrchestraAI.Execution.Approvals
import OrchestraAI.Execution.CallsOnce
import OrchestraAI.Execution.ChangesetAtomicity
import OrchestraAI.Execution.CommandConfinement
import OrchestraAI.Execution.CommandValidators
import OrchestraAI.Execution.ConcurrentWrites
import OrchestraAI.Execution.ConstraintScope
import OrchestraAI.Execution.Constraints
import OrchestraAI.Execution.FetchConfinement
import OrchestraAI.Execution.GateWidening
import OrchestraAI.Execution.KeyReuse
import OrchestraAI.Execution.LinkedWorkspace
import OrchestraAI.Execution.LiteralEdits
import OrchestraAI.Execution.Patch
import OrchestraAI.Execution.Plans
import OrchestraAI.Execution.RunDecisions
import OrchestraAI.Execution.RunIsolation
import OrchestraAI.Execution.StableText
import OrchestraAI.Execution.StepKeys
import OrchestraAI.Frontend.StreamAgreement
import OrchestraAI.Frontend.StreamView
import OrchestraAI.Idempotency.LocalContract
import OrchestraAI.Intelligence.FlushOrder
import OrchestraAI.Intelligence.OutcomeHonesty
import OrchestraAI.Intelligence.TenantIsolation
import OrchestraAI.Library.AsyncProgram
import OrchestraAI.Library.AttemptLedger
import OrchestraAI.Library.CodeUnits
import OrchestraAI.Library.ComparatorSort
import OrchestraAI.Library.GuardedUpdates
import OrchestraAI.Library.JsonReader
import OrchestraAI.Library.KeyOwnership
import OrchestraAI.Library.LabelledSystem
import OrchestraAI.Library.NewestWindow
import OrchestraAI.Library.NotedProgram
import OrchestraAI.Library.ObjectHeap
import OrchestraAI.Library.OrderedMap
import OrchestraAI.Library.Regex
import OrchestraAI.Library.RoundedGrid
import OrchestraAI.Library.WorkBag
import OrchestraAI.Library.Worklist
import OrchestraAI.Memory.Eviction
import OrchestraAI.Memory.Visibility
import OrchestraAI.Persistence.AtomicWrite
import OrchestraAI.Persistence.EventLog
import OrchestraAI.Persistence.FileStore
import OrchestraAI.Persistence.IndexAgreement
import OrchestraAI.Persistence.LogAgreement
import OrchestraAI.Persistence.Restore
import OrchestraAI.Persistence.RunIndex
import OrchestraAI.Persistence.SharedEventLog
import OrchestraAI.Persistence.SharedRunIndex
import OrchestraAI.Persistence.SilentLoss
import OrchestraAI.Persistence.SweepSafety
import OrchestraAI.Persistence.TenantRetention
import OrchestraAI.Privacy.Ledger
import OrchestraAI.Prompt.Requests
import OrchestraAI.Prompt.ResponseCache
import OrchestraAI.Providers.ChunkIndependence
import OrchestraAI.Providers.CredentialStore
import OrchestraAI.Providers.ListedRates
import OrchestraAI.Queue.GracefulClose
import OrchestraAI.Queue.HandOverSafety
import OrchestraAI.Queue.Job
import OrchestraAI.Queue.Memory
import OrchestraAI.Queue.MemoryConservation
import OrchestraAI.Queue.Redis
import OrchestraAI.Queue.RedisDelivery
import OrchestraAI.Queue.RedisIdempotence
import OrchestraAI.Queue.RedisLocal
import OrchestraAI.Queue.RedisLocalClose
import OrchestraAI.Queue.RedisShape
import OrchestraAI.Queue.RedisSteps
import OrchestraAI.Recovery.SideEffectSafety
import OrchestraAI.Routing.Optimality
import OrchestraAI.Sandbox.Confinement
import OrchestraAI.Sandbox.ProtocolAgreement
import OrchestraAI.Sandbox.Snapshot
