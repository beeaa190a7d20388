import CalcCycle.Cycle.Stage
import CalcCycle.Cycle.Stats
import CalcCycle.Execution.Encoding

/-! JSON forms of the stage of a cycle and of its counts. -/

namespace CalcCycle

namespace Stage

def tag : Stage → String
  | created => "Created"
  | inputsPrepared => "InputsPrepared"
  | executing => "Executing"
  | resultsPopulated => "ResultsPopulated"
  | released => "Released"

def tags : List (String × Stage) := all.map fun s => (s.tag, s)

def toJson (s : Stage) : Json := .string s.tag

def reader : Reader Stage := Reader.plainAlternative tags

end Stage

namespace CycleStats

def countFields : List String :=
  ["node_count", "executed", "failed", "not_started", "live_data_requested", "missing_live_data",
    "graphs_executed", "result_values"]

def timeFields : List String := ["prepare_time", "execute_time", "populate_time"]

def counts (s : CycleStats) : List Nat :=
  [s.nodeCount, s.executed, s.failed, s.notStarted, s.liveDataRequested, s.missingLiveData,
    s.graphsExecuted, s.resultValues]

def times (s : CycleStats) : List Span := [s.prepareTime, s.executeTime, s.populateTime]

def toJson (s : CycleStats) : Json :=
  .object (countFields.zip (s.counts.map .natural) ++ timeFields.zip (s.times.map Span.toJson))

def reader : Reader CycleStats := fun l d => do
  let p ← Reader.parts (countFields ++ timeFields) l d
  let count := fun i => p.required i (Reader.natural 64)
  let time := fun i => p.required i Span.reader
  pure
    { nodeCount := ← count 0
      executed := ← count 1
      failed := ← count 2
      notStarted := ← count 3
      liveDataRequested := ← count 4
      missingLiveData := ← count 5
      graphsExecuted := ← count 6
      resultValues := ← count 7
      prepareTime := ← time 8
      executeTime := ← time 9
      populateTime := ← time 10 }

end CycleStats

end CalcCycle
