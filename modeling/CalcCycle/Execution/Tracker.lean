import CalcCycle.Execution.State
import CalcCycle.Failure

/-! The states of all nodes of a model. A node starts once and reaches one terminal state once. -/

namespace CalcCycle

structure Tracker where
  states : List NodeState
  reasons : SortedMap NodeId FailureReason := .empty
  executedTally : Nat := 0
  failedTally : Nat := 0
  deriving Inhabited

namespace Tracker

def start (nodeCount : Nat) : Tracker := { states := List.replicate nodeCount .notStarted }

def state? (t : Tracker) (n : NodeId) : Option NodeState := t.states[n.index]?

def move (t : Tracker) (n : NodeId) (source goal : NodeState) : Except Failure Tracker :=
  match t.state? n with
  | none => .error (.invariant (n.text ++ " is not tracked"))
  | some actual =>
    if actual = source then .ok { t with states := t.states.set n.index goal }
    else
      .error (.invariant (n.text ++ " cannot move from " ++ source.text ++ " to " ++ goal.text ++
        ": it is " ++ actual.text))

def begin (t : Tracker) (n : NodeId) : Except Failure Tracker := t.move n .notStarted .executing

def markExecuted (t : Tracker) (n : NodeId) : Except Failure Tracker := do
  let t ← t.move n .executing .executed
  pure { t with executedTally := t.executedTally + 1 }

def markFailed (t : Tracker) (n : NodeId) (reason : FailureReason) : Except Failure Tracker := do
  let t ← t.move n .executing .failed
  pure { t with reasons := t.reasons.insert n reason, failedTally := t.failedTally + 1 }

def reason? (t : Tracker) (n : NodeId) : Option FailureReason := t.reasons.get? n

def size (t : Tracker) : Nat := t.states.length

def isExecuted (t : Tracker) (n : NodeId) : Bool := t.state? n == some .executed

def isFailed (t : Tracker) (n : NodeId) : Bool := t.state? n == some .failed

/-- The nodes in the state, by ascending id. -/
def nodesIn (t : Tracker) (s : NodeState) : List NodeId :=
  (t.states.zipIdx.filter (·.1 == s)).map fun e => ⟨e.2⟩

def executedNodes (t : Tracker) : List NodeId := t.nodesIn .executed

def failedNodes (t : Tracker) : List NodeId := t.nodesIn .failed

def counts (t : Tracker) : StateCounts := .ofStates t.states

end Tracker

end CalcCycle
