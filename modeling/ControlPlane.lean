import ControlPlane.Benchmark.Calibration
import ControlPlane.Benchmark.Integrity
import ControlPlane.Benchmark.Protocol
import ControlPlane.Benchmark.Ranking
import ControlPlane.Benchmark.Regression
import ControlPlane.Benchmark.Spans
import ControlPlane.Benchmark.Statistics
import ControlPlane.Benchmark.TaskText
import ControlPlane.Benchmark.Trajectory
import ControlPlane.Config.Migration
import ControlPlane.Config.Validation
import ControlPlane.Deployment.Audit
import ControlPlane.Deployment.Binding
import ControlPlane.Deployment.Contention
import ControlPlane.Deployment.ContextKeys
import ControlPlane.Deployment.Creation
import ControlPlane.Deployment.Evaluation
import ControlPlane.Deployment.Execution
import ControlPlane.Deployment.Exposure
import ControlPlane.Deployment.Guardrails
import ControlPlane.Deployment.Incident
import ControlPlane.Deployment.Lock
import ControlPlane.Deployment.Manifest
import ControlPlane.Deployment.Monitoring
import ControlPlane.Deployment.Publication
import ControlPlane.Deployment.Refinement
import ControlPlane.Deployment.Reread
import ControlPlane.Deployment.Runs
import ControlPlane.Deployment.Runtime
import ControlPlane.Deployment.Serving
import ControlPlane.Deployment.Stages
import ControlPlane.Deployment.State
import ControlPlane.Deployment.Statistics
import ControlPlane.Environment
import ControlPlane.Gate.Authorize
import ControlPlane.Gate.Parameters
import ControlPlane.Gate.Walk
import ControlPlane.Index.Recovery
import ControlPlane.Index.Rows
import ControlPlane.Index.Runs
import ControlPlane.Instance
import ControlPlane.Journal.Build
import ControlPlane.Journal.Replay
import ControlPlane.Journal.Sealed
import ControlPlane.Journal.Verify
import ControlPlane.Learning.Decision
import ControlPlane.Learning.Features
import ControlPlane.Learning.Records
import ControlPlane.Lib.Averages
import ControlPlane.Lib.Decimals
import ControlPlane.Lib.Dumps
import ControlPlane.Lib.Dynamic
import ControlPlane.Lib.Floats
import ControlPlane.Lib.Framing
import ControlPlane.Lib.Grid
import ControlPlane.Lib.HashChain
import ControlPlane.Lib.Holes
import ControlPlane.Lib.Incremental
import ControlPlane.Lib.Intervals
import ControlPlane.Lib.Keyed
import ControlPlane.Lib.LazyGreedy
import ControlPlane.Lib.Lines
import ControlPlane.Lib.Loops
import ControlPlane.Lib.Magnitudes
import ControlPlane.Lib.Mirror
import ControlPlane.Lib.Objects
import ControlPlane.Lib.Occurrences
import ControlPlane.Lib.OffPolicy
import ControlPlane.Lib.OrderStatistics
import ControlPlane.Lib.Overlay
import ControlPlane.Lib.Phases
import ControlPlane.Lib.Print
import ControlPlane.Lib.Publish
import ControlPlane.Lib.Quote
import ControlPlane.Lib.Rearrangement
import ControlPlane.Lib.RoundTrip
import ControlPlane.Lib.Rounding
import ControlPlane.Lib.Runs
import ControlPlane.Lib.Segments
import ControlPlane.Lib.SignedGrid
import ControlPlane.Lib.Simulation
import ControlPlane.Lib.Slug
import ControlPlane.Lib.Text
import ControlPlane.Lib.Thresholds
import ControlPlane.Lib.Tree
import ControlPlane.Lib.Utf8
import ControlPlane.Lib.Value
import ControlPlane.Lib.Weights
import ControlPlane.Lib.Windows
import ControlPlane.Memory.Export
import ControlPlane.Memory.Prune
import ControlPlane.Memory.Store
import ControlPlane.Policy.Cutoff
import ControlPlane.Policy.DirectModel
import ControlPlane.Policy.Estimates
import ControlPlane.Policy.Propensities
import ControlPlane.Policy.Scores
import ControlPlane.Production.Convergence
import ControlPlane.Production.Mirroring
import ControlPlane.Production.Store
import ControlPlane.Production.Writers
import ControlPlane.Provenance.Metadata
import ControlPlane.Provenance.RunStore
import ControlPlane.Provider.Diagnostics
import ControlPlane.Provider.Readers
import ControlPlane.Provider.Registry
import ControlPlane.Provider.Response
import ControlPlane.Provider.Results
import ControlPlane.Provider.Spec
import ControlPlane.Retrieval.Assembly
import ControlPlane.Retrieval.Budget
import ControlPlane.Retrieval.Cache
import ControlPlane.Retrieval.Caps
import ControlPlane.Retrieval.Contract
import ControlPlane.Retrieval.Coverage
import ControlPlane.Retrieval.Fusion
import ControlPlane.Retrieval.Greedy
import ControlPlane.Retrieval.Items
import ControlPlane.Retrieval.Matching
import ControlPlane.Retrieval.Ranking
import ControlPlane.Retrieval.Routing
import ControlPlane.Retrieval.Selection
import ControlPlane.Retrieval.StructuralValidation
import ControlPlane.Telemetry.Gather
import ControlPlane.Telemetry.Traces
import ControlPlane.Verify.Compress
import ControlPlane.Workspace.Changed
import ControlPlane.Workspace.DataDirs
import ControlPlane.Workspace.Decisions
import ControlPlane.Workspace.Exclude
import ControlPlane.Workspace.Fingerprint
import ControlPlane.Workspace.Freshness
import ControlPlane.Workspace.GitStatus
import ControlPlane.Workspace.Graph
import ControlPlane.Workspace.Registry
import ControlPlane.Workspace.Scip
