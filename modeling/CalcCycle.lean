import CalcCycle.Config.File
import CalcCycle.Cycle.Basic
import CalcCycle.Calculation.Rehearsal
import CalcCycle.Feed.Scripted
import CalcCycle.Graph.Blueprint
import CalcCycle.Graph.Encoding
import CalcCycle.Proofs.Graph.Edges
import CalcCycle.Proofs.Graph.Walk
import CalcCycle.Proofs.Graph.Acyclic
import CalcCycle.Proofs.Graph.WellFormed
import CalcCycle.Proofs.Cache.Open
import CalcCycle.Proofs.Execution.Tracker
import CalcCycle.Proofs.Execution.Action
import CalcCycle.Proofs.Execution.History
import CalcCycle.Proofs.Execution.Scheduling
import CalcCycle.Proofs.Execution.Progress
import CalcCycle.Proofs.Execution.Pool
import CalcCycle.Proofs.Cycle.Course
import CalcCycle.Proofs.Execution.Verdict
import CalcCycle.Proofs.Execution.Ownership
import CalcCycle.Proofs.Execution.Soundness
import CalcCycle.Proofs.Execution.Hearing
import CalcCycle.Proofs.Graph.Blueprint
import CalcCycle.Proofs.Cycle.Preparation
import CalcCycle.Proofs.Cycle.Completion
import CalcCycle.Proofs.Execution.Reference
import CalcCycle.Proofs.Cycle.Determinism
import CalcCycle.Proofs.Feed.Lookup
import CalcCycle.Proofs.Feed.History
import CalcCycle.Proofs.Execution.Provenance
import CalcCycle.Proofs.Cycle.LiveInputs
import CalcCycle.Proofs.Graph.Registration
import CalcCycle.Proofs.Cycle.PartitionOrder
import CalcCycle.Proofs.Cycle.Custody
import CalcCycle.Proofs.Cycle.Cancellation
import CalcCycle.Proofs.Cache.Frame
import CalcCycle.Proofs.Cache.Label
import CalcCycle.Proofs.Cycle.Activity
import CalcCycle.Proofs.Cycle.Sketch
import CalcCycle.Proofs.Cycle.Standing
import CalcCycle.Proofs.Cycle.Footprint
import CalcCycle.Proofs.Cycle.Isolation
import CalcCycle.Proofs.Execution.Failures
import CalcCycle.Proofs.Cycle.Lifecycle
import CalcCycle.Proofs.Cycle.Passage
import CalcCycle.Proofs.Cycle.Unfinished
import CalcCycle.Proofs.Cycle.Telling
import CalcCycle.Proofs.Cycle.Cleanup
import CalcCycle.Proofs.Cycle.Seeding
import CalcCycle.Proofs.Graph.Recast
import CalcCycle.Proofs.Cycle.Cone
import CalcCycle.Proofs.Cycle.Reach
import CalcCycle.Proofs.Cycle.Sharing
import CalcCycle.Proofs.Graph.Acceptance
import CalcCycle.Proofs.Graph.Assembly
import CalcCycle.Proofs.Cycle.Tallies
import CalcCycle.Proofs.Graph.Buildable
import CalcCycle.Proofs.Graph.LiveData
import CalcCycle.Proofs.Json.Document
import CalcCycle.Proofs.Json.Reading
import CalcCycle.Proofs.Value.Encoding
import CalcCycle.Proofs.Cycle.Results
import CalcCycle.Proofs.Feed.Queries
import CalcCycle.Proofs.Execution.Commit
import CalcCycle.Proofs.Execution.Halting
import CalcCycle.Proofs.Cycle.Halting
import CalcCycle.Proofs.Execution.Starving
import CalcCycle.Proofs.Cycle.Dangling
import CalcCycle.Proofs.Graph.Sorting
import CalcCycle.Proofs.Graph.Numbering
import CalcCycle.Proofs.Cache.Books
import CalcCycle.Proofs.Cache.History
import CalcCycle.Proofs.Execution.Withholding
import CalcCycle.Proofs.Cycle.Reporting
import CalcCycle.Proofs.Execution.Transitions
import CalcCycle.Proofs.Graph.Neighbours
import CalcCycle.Proofs.Text.Bytes
import CalcCycle.Proofs.Value.Resolution
