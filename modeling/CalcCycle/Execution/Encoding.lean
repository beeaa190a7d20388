import CalcCycle.Execution.GraphRun
import CalcCycle.Value.Encoding

/-! JSON forms of what a run reports. -/

namespace CalcCycle

namespace Span

def toJson (s : Span) : Json := .object [("secs", .natural s.seconds), ("nanos", .natural s.nanos)]

/-- A length of time has no other members. -/
def reader : Reader Span := fun l d => do
  let fields := ["secs", "nanos"]
  match d with
  | .object members =>
    if members.all fun m => m.1.any fields.contains then pure () else none
  | _ => pure ()
  let p ← Reader.parts fields l d
  carry (← p.required 0 (Reader.natural 64)) (← p.required 1 (Reader.natural 32))

end Span

namespace NodeState

def tag : NodeState → String
  | notStarted => "NotStarted"
  | executing => "Executing"
  | executed => "Executed"
  | failed => "Failed"

def tags : List (String × NodeState) :=
  [notStarted, executing, executed, failed].map fun s => (s.tag, s)

def toJson (s : NodeState) : Json := .string s.tag

def reader : Reader NodeState := Reader.plainAlternative tags

end NodeState

namespace FailureReason

def toJson : FailureReason → Json
  | missingInputs specs => .tagged "MissingInputs" (.array (specs.map Specification.toJson))
  | functionFault message => .tagged "FunctionFault" (.string message)

def reader : Reader FailureReason := Reader.taggedAlternative
  [("MissingInputs", fun l d => (Reader.list Specification.reader l d).map missingInputs),
    ("FunctionFault", fun l d => (Reader.string l d).map functionFault)]

end FailureReason

namespace StateCounts

def fields : List String := ["not_started", "executing", "executed", "failed"]

def toJson (c : StateCounts) : Json :=
  .object (fields.zip ([c.notStarted, c.executing, c.executed, c.failed].map .natural))

def reader : Reader StateCounts := fun l d => do
  let p ← Reader.parts fields l d
  let count := fun i => p.required i (Reader.natural 64)
  pure
    { notStarted := ← count 0
      executing := ← count 1
      executed := ← count 2
      failed := ← count 3 }

end StateCounts

namespace GraphReport

def fields : List String :=
  ["target", "node_count", "executed", "failed", "not_dispatched", "elapsed"]

def toJson (r : GraphReport) : Json :=
  .object (fields.zip
    [r.target.toJson, .natural r.nodeCount, .natural r.executed, .natural r.failed,
      .natural r.notDispatched, r.elapsed.toJson])

def reader : Reader GraphReport := fun l d => do
  let p ← Reader.parts fields l d
  let count := fun i => p.required i (Reader.natural 64)
  pure
    { target := ← p.required 0 Target.reader
      nodeCount := ← count 1
      executed := ← count 2
      failed := ← count 3
      notDispatched := ← count 4
      elapsed := ← p.required 5 Span.reader }

end GraphReport

end CalcCycle
