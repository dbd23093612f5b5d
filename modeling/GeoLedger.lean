import GeoLedger.Library.Runs
import GeoLedger.Library.Rows
import GeoLedger.Library.Grid
import GeoLedger.Library.FloatingPoint
import GeoLedger.Library.Binary64
import GeoLedger.Library.Dict
import GeoLedger.Library.Outcomes
import GeoLedger.Schema
import GeoLedger.Environment
import GeoLedger.Tables
import GeoLedger.Debts
import GeoLedger.Invariants
import GeoLedger.Validation
import GeoLedger.TrustLines
import GeoLedger.Payments.ApplyFlow
import GeoLedger.Payments.Engine
import GeoLedger.Payments.EngineEffects
import GeoLedger.Clearing.Execute
import GeoLedger.Clearing.Effects
import GeoLedger.Recovery
import GeoLedger.Ledger
import GeoLedger.LedgerSafety
import GeoLedger.Transactions
import GeoLedger.Clearing.Identity
import GeoLedger.Clearing.Neutrality
import GeoLedger.Payments.Locks
import GeoLedger.Payments.Router
import GeoLedger.Reservations
import GeoLedger.Balance
import GeoLedger.Payments.RouterGraph
import GeoLedger.Capacity
import GeoLedger.Payments.RouteSearch
import GeoLedger.Payments.RoutingAgreement
import GeoLedger.Payments.ExactTransfer
import GeoLedger.RecoveryConvergence
import GeoLedger.Payments.CommitOutcome
import GeoLedger.Library.Trails
import GeoLedger.AuditRows
import GeoLedger.AuditTrail
import GeoLedger.Library.Flows
import GeoLedger.Library.ShortestAugmentation
import GeoLedger.Payments.MaxFlow
import GeoLedger.Payments.MaxFlowBound
import GeoLedger.Library.Feeds
import GeoLedger.Simulator.SseBroadcast
import GeoLedger.Simulator.SseGapFree
import GeoLedger.Library.LevelOrder
import GeoLedger.Payments.ShortestRoutes
import GeoLedger.Simulator.PaymentTargets
import GeoLedger.Simulator.Scenario
import GeoLedger.Simulator.TrustDrift
import GeoLedger.Simulator.DecaySafety
import GeoLedger.Simulator.Interact
import GeoLedger.Library.CommitLog
import GeoLedger.Payments.RoutingCache
import GeoLedger.Simulator.RoutingHub
import GeoLedger.Simulator.CacheCoherence
import GeoLedger.Library.JsonText
import GeoLedger.Signing
import GeoLedger.Library.Blocks
import GeoLedger.Simulator.SseWire
import GeoLedger.Simulator.SseChunks
import GeoLedger.Simulator.AdaptiveClearing
import GeoLedger.Simulator.ClearingIsolation
import GeoLedger.Simulator.TickStorage
import GeoLedger.Simulator.RunLifecycle
import GeoLedger.Simulator.LifecycleSafety
import GeoLedger.Library.Delimited
import GeoLedger.Simulator.PaymentIds
import GeoLedger.Simulator.GenuineCommits
import GeoLedger.Simulator.TickEffects
import GeoLedger.Simulator.EffectsOnce
import GeoLedger.Library.Refresh
import GeoLedger.Simulator.EdgePatches
import GeoLedger.Simulator.PatchedViews
import GeoLedger.Library.JsValues
import GeoLedger.Simulator.EventWire
import GeoLedger.Simulator.EventNormalizer
import GeoLedger.Simulator.EventAcceptance
import GeoLedger.Library.FlowPaths
import GeoLedger.Payments.MinCut
import GeoLedger.Library.RowRefs
import GeoLedger.Payments.RoutePolicies
import GeoLedger.Payments.RouteSplit
import GeoLedger.Payments.PrepareAgreement
import GeoLedger.Clearing.CycleEffect
import GeoLedger.Clearing.Detection
import GeoLedger.Clearing.AutoClear
import GeoLedger.Admin.GraphAnalytics
import GeoLedger.Admin.DisplayAtoms
import GeoLedger.Admin.AnalyticsAgreement
import GeoLedger.AmountGrammar
import GeoLedger.PolicyNulls
import GeoLedger.Simulator.TrustGrowth
import GeoLedger.Simulator.ClearingCadence
import GeoLedger.Library.Reorder
import GeoLedger.Simulator.PaymentsExecutor
import GeoLedger.Simulator.PaymentsCollection
import GeoLedger.Simulator.PressureSignals
import GeoLedger.Repairs
import GeoLedger.Simulator.CommitResolution
import GeoLedger.Library.WriteBehind
import GeoLedger.Simulator.InjectSession
import GeoLedger.Simulator.InjectFlush
import GeoLedger.Simulator.InjectSteps
import GeoLedger.Simulator.InjectSequence
import GeoLedger.Simulator.InjectedDebts
import GeoLedger.Api.RateLimit
import GeoLedger.Simulator.PostTickAudit
import GeoLedger.Api.Credentials
import GeoLedger.Admin.NetDistribution
import GeoLedger.Simulator.ScenarioSeeder
import GeoLedger.Simulator.EventsSurvive
import GeoLedger.Admin.ConfigAudit
import GeoLedger.Library.BoundedMemory
import GeoLedger.Simulator.ReplayOwner
import GeoLedger.Simulator.ReplayAdmission
import GeoLedger.Library.HopSearch
import GeoLedger.Payments.TopologyPath
import GeoLedger.Simulator.InteractEndpoints
import GeoLedger.Admin.DecimalStrings
import GeoLedger.CanonicalDecimals
import GeoLedger.CanonicalJson
import GeoLedger.PidMigration
import GeoLedger.PidRoundTrip
import GeoLedger.Library.LatestAnswers
import GeoLedger.Simulator.InteractDataCache
import GeoLedger.Simulator.InteractAnswers
import GeoLedger.Simulator.MetricsPolling
import GeoLedger.Simulator.PollingFreshness
import GeoLedger.Simulator.InteractMode
import GeoLedger.Simulator.InteractOperations
import GeoLedger.Library.Headroom
import GeoLedger.Payments.ReservedRoom
import GeoLedger.Payments.Lifecycle
import GeoLedger.Payments.Journal
import GeoLedger.Payments.Settlement
import GeoLedger.Payments.Abandoned
