import CalcCycle.Calendar.Span

/-! What a cycle counts. -/

namespace CalcCycle

structure CycleStats where
  nodeCount : Nat := 0
  executed : Nat := 0
  failed : Nat := 0
  notStarted : Nat := 0
  liveDataRequested : Nat := 0
  missingLiveData : Nat := 0
  graphsExecuted : Nat := 0
  resultValues : Nat := 0
  prepareTime : Span := {}
  executeTime : Span := {}
  populateTime : Span := {}
  deriving DecidableEq, Inhabited

end CalcCycle
