import CalcCycle.Number.Power
import CalcCycle.Value.Requirement

/-! Where a node stands in a run, and why it failed. -/

namespace CalcCycle

inductive NodeState
  | notStarted
  | executing
  | executed
  | failed
  deriving DecidableEq, Repr, Inhabited

namespace NodeState

def isTerminal : NodeState → Bool
  | executed => true
  | failed => true
  | _ => false

def text : NodeState → String
  | notStarted => "not started"
  | executing => "executing"
  | executed => "executed"
  | failed => "failed"

end NodeState

inductive FailureReason
  | missingInputs (specifications : List Specification)
  | functionFault (message : String)
  deriving DecidableEq, Inhabited

def FailureReason.text : FailureReason → String
  | missingInputs specs => "missing inputs: " ++ ", ".intercalate (specs.map (·.text))
  | functionFault message => "function fault: " ++ message

structure StateCounts where
  notStarted : Nat := 0
  executing : Nat := 0
  executed : Nat := 0
  failed : Nat := 0
  deriving DecidableEq, Inhabited

namespace StateCounts

/-- The sum as a word of 64 bits, like the counts themselves. -/
def total (c : StateCounts) : Nat :=
  (c.notStarted + c.executing + c.executed + c.failed) % pow2 64

def tally (c : StateCounts) : NodeState → StateCounts
  | .notStarted => { c with notStarted := c.notStarted + 1 }
  | .executing => { c with executing := c.executing + 1 }
  | .executed => { c with executed := c.executed + 1 }
  | .failed => { c with failed := c.failed + 1 }

def ofStates (states : List NodeState) : StateCounts := states.foldl tally {}

end StateCounts

end CalcCycle
