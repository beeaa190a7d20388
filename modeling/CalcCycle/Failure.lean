import CalcCycle.Cache.Basic
import CalcCycle.Cycle.Stage
import CalcCycle.Feed.Basic
import CalcCycle.Graph.Basic

/-! Why an operation of the engine was refused or broken off. -/

namespace CalcCycle

inductive Failure
  | configuration (reason : String)
  | feed (e : FeedError)
  | cache (e : CacheError)
  | graph (e : GraphError)
  /-- The operation does not fit the stage. -/
  | lifecycle (operation : String) (stage : Stage)
  | cycleReleased
  | invariant (reason : String)
  | workerPool (reason : String)
  deriving DecidableEq, Inhabited

namespace Failure

def message : Failure → String
  | configuration reason => "configuration error: " ++ reason
  | feed e => "live data error: " ++ e.message
  | cache e => "cache error: " ++ e.message
  | graph e => "graph error: " ++ e.message
  | lifecycle operation stage => "cannot " ++ operation ++ " while cycle is " ++ stage.text
  | cycleReleased => "cycle has been released"
  | invariant reason => "invariant violation: " ++ reason
  | workerPool reason => "worker pool error: " ++ reason

/-- The name of the failure for programs; the name of an error inside comes after a point. -/
def code : Failure → String
  | configuration .. => "ConfigError"
  | feed e => "LiveData." ++ e.code
  | cache e => "Cache." ++ e.code
  | graph e => "Graph." ++ e.code
  | lifecycle .. => "InvalidLifecycle"
  | cycleReleased => "CycleReleased"
  | invariant .. => "InvariantViolation"
  | workerPool .. => "WorkerPool"

/-- The text of the error inside, if there is one. -/
def inner? : Failure → Option String
  | feed e => some e.message
  | cache e => some e.message
  | graph e => some e.message
  | _ => none

end Failure

end CalcCycle
