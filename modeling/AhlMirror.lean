import AhlMirror.Core.Base64
import AhlMirror.Core.Calendar
import AhlMirror.Core.Committing
import AhlMirror.Core.Decimal
import AhlMirror.Core.GreedyChain
import AhlMirror.Core.Indexed
import AhlMirror.Core.Keyed
import AhlMirror.Core.Lows
import AhlMirror.Core.Matching
import AhlMirror.Core.Neighbours
import AhlMirror.Core.Reading
import AhlMirror.Core.Transition
import AhlMirror.Governance.Chain
import AhlMirror.Governance.Durations
import AhlMirror.Governance.Ignored
import AhlMirror.Governance.KeySets
import AhlMirror.Governance.Views
import AhlMirror.Governance.Walk
import AhlMirror.Merkle.Binding
import AhlMirror.Merkle.Blocks
import AhlMirror.Merkle.Cost
import AhlMirror.Merkle.RangeSpans
import AhlMirror.Merkle.Recompute
import AhlMirror.Merkle.Root
import AhlMirror.Merkle.Verify
import AhlMirror.Merkle.Walk
import AhlMirror.Model.Basic
import AhlMirror.Model.Checkpoint
import AhlMirror.Model.Duration
import AhlMirror.Model.Http
import AhlMirror.Model.Ingest
import AhlMirror.Model.Laws
import AhlMirror.Model.Locked
import AhlMirror.Model.Manifest
import AhlMirror.Model.Migrate
import AhlMirror.Model.Paired
import AhlMirror.Model.Range
import AhlMirror.Model.Routes
import AhlMirror.Model.Run
import AhlMirror.Model.Server
import AhlMirror.Model.Service
import AhlMirror.Model.Store
import AhlMirror.Model.Symbolic
import AhlMirror.Series.Admission
import AhlMirror.Series.Alike
import AhlMirror.Series.Anchors
import AhlMirror.Series.Arrival
import AhlMirror.Series.Dense
import AhlMirror.Series.Divergence
import AhlMirror.Series.Equivocation
import AhlMirror.Series.Floor
import AhlMirror.Series.Frame
import AhlMirror.Series.Frontier
import AhlMirror.Series.Independence
import AhlMirror.Series.Labels
import AhlMirror.Series.Locks
import AhlMirror.Series.Provenance
import AhlMirror.Series.Retry
import AhlMirror.Series.RotationSearch
import AhlMirror.Series.RotationTable
import AhlMirror.Series.Served
import AhlMirror.Series.Snapshot
import AhlMirror.Series.Staging
import AhlMirror.Series.Times
import AhlMirror.Series.Usable
import AhlMirror.Series.View
import AhlMirror.Series.Visible
import AhlMirror.Server.Account
import AhlMirror.Server.Bounds
import AhlMirror.Server.Durable
import AhlMirror.Server.Log
import AhlMirror.Server.Serial
import AhlMirror.Server.Steps
import AhlMirror.Service.Audit
import AhlMirror.Service.Faults
import AhlMirror.Service.Ledger
import AhlMirror.Service.Observed
import AhlMirror.Service.Progress
import AhlMirror.Service.Published
import AhlMirror.Store.Beside
import AhlMirror.Store.CacheCheck
import AhlMirror.Store.Calls
import AhlMirror.Store.Cost
import AhlMirror.Store.History
import AhlMirror.Store.Missing
import AhlMirror.Store.Opening
import AhlMirror.Store.Promotion
import AhlMirror.Store.Prover
import AhlMirror.Store.RangeGeometry
import AhlMirror.Store.RangeResponse
import AhlMirror.Store.RangeSoundness
import AhlMirror.Store.Reads
import AhlMirror.Store.Reopening
import AhlMirror.Store.Representation
import AhlMirror.Store.Restart
import AhlMirror.Store.Rows
import AhlMirror.Store.Sealed
