import MiniSqlite.Lib.Labelled
import MiniSqlite.Lib.Tx
import MiniSqlite.Lib.Rows
import MiniSqlite.Lib.Runs
import MiniSqlite.Types
import MiniSqlite.Sha256
import MiniSqlite.Digest
import MiniSqlite.Schema
import MiniSqlite.Projections
import MiniSqlite.Jobs
import MiniSqlite.Claims
import MiniSqlite.Commit
import MiniSqlite.Store
import MiniSqlite.JobMachine
import MiniSqlite.JobRefinement
import MiniSqlite.CommitRefinement
import MiniSqlite.JobInvariants
import MiniSqlite.LeaseInvariants
import MiniSqlite.ClaimRefinement
import MiniSqlite.StoreRefinement
import MiniSqlite.History
import MiniSqlite.Queues
import MiniSqlite.CommitEvaluation
import MiniSqlite.Leases
import MiniSqlite.LeaseProtection
import MiniSqlite.Retries
import MiniSqlite.StaleTokens
import MiniSqlite.CommitAtomicity
import MiniSqlite.Resubmission
import MiniSqlite.RoundRobin
import MiniSqlite.ClaimRecovery
import MiniSqlite.EventLog
import MiniSqlite.OptimisticConcurrency
import MiniSqlite.ProjectionFold
import MiniSqlite.Lib.Checks
import MiniSqlite.JobSemantics
import MiniSqlite.CommitSemantics
import MiniSqlite.TypedRejections
import MiniSqlite.ForeignKeys
import MiniSqlite.ClaimSemantics
import MiniSqlite.JobRows
import MiniSqlite.Liveness
import MiniSqlite.BatchSplitting
import MiniSqlite.Migrations
import MiniSqlite.Verify
import MiniSqlite.StateMachine
import MiniSqlite.RecoveryKinds
import MiniSqlite.Lib.Paging
import MiniSqlite.EventReads
import MiniSqlite.ClaimPlan
import MiniSqlite.ClaimSelection
import MiniSqlite.Lib.Loops
import MiniSqlite.Drain
import MiniSqlite.Expiry
import MiniSqlite.QueueIndependence
import MiniSqlite.Commutation
import MiniSqlite.Diagnostics
import MiniSqlite.LimitsStored
import MiniSqlite.Lib.Prefixes
import MiniSqlite.ProjectionScans
import MiniSqlite.Lib.Overlays
import MiniSqlite.PatchSegments
import MiniSqlite.JobPages
import MiniSqlite.StreamRows
import MiniSqlite.ExportRows
import MiniSqlite.VerifyGaps
import MiniSqlite.Lib.Blocks
import MiniSqlite.Lib.Fips180
import MiniSqlite.Sha256Compression
import MiniSqlite.Sha256Streaming
import MiniSqlite.UncertainAge
import MiniSqlite.Lib.Json
import MiniSqlite.ExportJson
import MiniSqlite.Lib.Base16
import MiniSqlite.HexCodecs
import MiniSqlite.Lib.Erasure
import MiniSqlite.FaultErasure
import MiniSqlite.Builders
import MiniSqlite.Lib.Clients
import MiniSqlite.ProviderTurn
import MiniSqlite.ProviderClaim
import MiniSqlite.Lib.Ddl
import MiniSqlite.Lib.Processes
import MiniSqlite.SchemaChanges
import MiniSqlite.Opening
import MiniSqlite.JobColumns
import MiniSqlite.Constraints
import MiniSqlite.Lib.Reads
import MiniSqlite.LiveChecks
import MiniSqlite.Journal
import MiniSqlite.ProjectionReads
import MiniSqlite.JobReads
import MiniSqlite.Lib.Honest
import MiniSqlite.HonestRefusals
import MiniSqlite.Heartbeat
import MiniSqlite.Lib.Custody
import MiniSqlite.Threads
