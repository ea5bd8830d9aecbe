import AdaptiveLoops.Device.Metrics.Document
import AdaptiveLoops.Document.Json.Parse
import AdaptiveLoops.IterationSpace.Document
import AdaptiveLoops.Main
import AdaptiveLoops.Proofs.IterationSpace.Tuples
import AdaptiveLoops.Proofs.Statement.Nesting
import AdaptiveLoops.Proofs.Walk.Frame
import AdaptiveLoops.Proofs.Walk.Tuples
import AdaptiveLoops.Proofs.Walk.Scheduling
import AdaptiveLoops.Proofs.Statement.Build
import AdaptiveLoops.Proofs.Dispatch.Coverage
import AdaptiveLoops.Proofs.Pool.Run
import AdaptiveLoops.Proofs.Pool.Outstanding
import AdaptiveLoops.Proofs.Region.Counters
import AdaptiveLoops.Proofs.Variant.Launch
import AdaptiveLoops.Proofs.Region.Issue
import AdaptiveLoops.Proofs.Region.Conservation
import AdaptiveLoops.Proofs.Device.Completion
import AdaptiveLoops.Proofs.Region.Feedback
import AdaptiveLoops.Proofs.Region.Ledger
import AdaptiveLoops.Proofs.Region.Setup
import AdaptiveLoops.Proofs.Region.Exhaustion
import AdaptiveLoops.Proofs.Region.Drain
import AdaptiveLoops.Proofs.Registry.Run
import AdaptiveLoops.Proofs.Registry.Drain
import AdaptiveLoops.Proofs.Registry.Sessions
import AdaptiveLoops.Proofs.Region.Tally
import AdaptiveLoops.Proofs.Region.Warmup
import AdaptiveLoops.Proofs.Bench.Count
import AdaptiveLoops.Proofs.Region.Defects
import AdaptiveLoops.Proofs.Model.Exploration
import AdaptiveLoops.Proofs.Region.Exploration
import AdaptiveLoops.Proofs.Walk.Panics
import AdaptiveLoops.Proofs.Variant.Fallback
import AdaptiveLoops.Proofs.Dispatch.Blocks
import AdaptiveLoops.Proofs.Walk.Threads
import AdaptiveLoops.Proofs.Dispatch.RowMajor
import AdaptiveLoops.Proofs.Dispatch.Failures
import AdaptiveLoops.Proofs.Statement.Validity
import AdaptiveLoops.Proofs.Statement.Nests
import AdaptiveLoops.Proofs.Variant.Calls
import AdaptiveLoops.Proofs.Model.Selection
import AdaptiveLoops.Proofs.Region.Learning
import AdaptiveLoops.Proofs.Model.Buckets
import AdaptiveLoops.Proofs.Policy.Text
import AdaptiveLoops.Proofs.Walk.Tiles
import AdaptiveLoops.Proofs.IterationSpace.Size
import AdaptiveLoops.Proofs.Config.Effective
import AdaptiveLoops.Proofs.Config.Document
import AdaptiveLoops.Proofs.Pool.Recency
import AdaptiveLoops.Proofs.Statement.Dump
import AdaptiveLoops.Proofs.Region.Notices
import AdaptiveLoops.Proofs.Walk.Restore
