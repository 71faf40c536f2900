import SegmentManager.Cache.OpenIndexes
import SegmentManager.Cache.Recency
import SegmentManager.Cache.Records
import SegmentManager.Catalog
import SegmentManager.CommandLine
import SegmentManager.Counters
import SegmentManager.Decimal.Digits
import SegmentManager.Decimal.Rounding
import SegmentManager.Decimal.Scaled
import SegmentManager.Decimal.Shortest
import SegmentManager.Digest.Sha256
import SegmentManager.FileTree.Json
import SegmentManager.FileTree.Path
import SegmentManager.IndexBudget
import SegmentManager.Instance
import SegmentManager.Instances
import SegmentManager.Json.Parser
import SegmentManager.Json.Printer
import SegmentManager.Json.RoundTrip
import SegmentManager.Json.Value
import SegmentManager.Main
import SegmentManager.Manager
import SegmentManager.Metadata.Json
import SegmentManager.Metadata.Propagation
import SegmentManager.Metadata.Tagged
import SegmentManager.Proofs.Cache.Eviction
import SegmentManager.Proofs.Cache.Fates
import SegmentManager.Proofs.Cache.OpenIndexes
import SegmentManager.Proofs.Cache.Recency
import SegmentManager.Proofs.Cache.Records
import SegmentManager.Proofs.Cache.Uses
import SegmentManager.Proofs.FileTree
import SegmentManager.Proofs.FileTree.Order
import SegmentManager.Proofs.FileTree.Sizes
import SegmentManager.Proofs.FileTree.Walks
import SegmentManager.Proofs.Json
import SegmentManager.Proofs.Metadata
import SegmentManager.Proofs.Record
import SegmentManager.Proofs.Routing
import SegmentManager.Proofs.System.Accesses
import SegmentManager.Proofs.System.Accounts
import SegmentManager.Proofs.System.Alterations
import SegmentManager.Proofs.System.Coherence
import SegmentManager.Proofs.System.Creation
import SegmentManager.Proofs.System.Credit
import SegmentManager.Proofs.System.Deletion
import SegmentManager.Proofs.System.Endpoints
import SegmentManager.Proofs.System.Failure
import SegmentManager.Proofs.System.Forecast
import SegmentManager.Proofs.System.Ghosts
import SegmentManager.Proofs.System.History
import SegmentManager.Proofs.System.Interleaving
import SegmentManager.Proofs.System.Ledger
import SegmentManager.Proofs.System.Lifecycle
import SegmentManager.Proofs.System.Lookup
import SegmentManager.Proofs.System.MemoryBudget
import SegmentManager.Proofs.System.OpenIndexes
import SegmentManager.Proofs.System.OpenLives
import SegmentManager.Proofs.System.Renewal
import SegmentManager.Proofs.System.RoomToSpare
import SegmentManager.Proofs.System.Running
import SegmentManager.Proofs.System.Rush
import SegmentManager.Proofs.System.Selection
import SegmentManager.Proofs.System.SharedInstances
import SegmentManager.Proofs.System.Since
import SegmentManager.Proofs.System.Statistics
import SegmentManager.Proofs.System.Stragglers
import SegmentManager.Proofs.System.Teardown
import SegmentManager.Proofs.System.Transparency
import SegmentManager.Proofs.System.UnknownRows
import SegmentManager.Proofs.System.Views
import SegmentManager.Proofs.Usage
import SegmentManager.Record
import SegmentManager.Record.Json
import SegmentManager.Registry
import SegmentManager.Routing
import SegmentManager.Settings
import SegmentManager.Simulation.Callers
import SegmentManager.Simulation.Scenario
import SegmentManager.System
import SegmentManager.System.Interleaving
import SegmentManager.System.Lookup
import SegmentManager.System.Run
import SegmentManager.System.Teardown
import SegmentManager.Table
import SegmentManager.Usage
import SegmentManager.Proofs.Usage.Limits
import SegmentManager.Proofs.Usage.Order
import SegmentManager.Proofs.System.HeldIndexes
import SegmentManager.Proofs.System.Hinted
import SegmentManager.Proofs.System.Warmth
