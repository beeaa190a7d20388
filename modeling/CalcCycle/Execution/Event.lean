import CalcCycle.Execution.State
import CalcCycle.Graph.Node

/-! What a listener hears of a run, and how it may react. -/

namespace CalcCycle

inductive Event
  | graphStarted (target : Target) (nodes : Nat)
  | nodeDispatched (node : NodeId) (job : Nat)
  | nodeCompleted (node : NodeId) (state : NodeState)
  | graphCompleted (target : Target)
  deriving DecidableEq, Inhabited

namespace Event

def name : Event → String
  | graphStarted .. => "graph_started"
  | nodeDispatched .. => "node_dispatched"
  | nodeCompleted .. => "node_completed"
  | graphCompleted .. => "graph_completed"

/-- The target or node that the event is about. -/
def subject : Event → String
  | graphStarted t _ => t.text
  | nodeDispatched n _ => n.text
  | nodeCompleted n _ => n.text
  | graphCompleted t => t.text

def details (withJobs : Bool) : Event → String
  | graphStarted _ nodes => " nodes=" ++ toString nodes
  | nodeDispatched _ job => if withJobs then " job=" ++ toString job else ""
  | nodeCompleted _ state => " " ++ state.text
  | graphCompleted _ => ""

def text (withJobs : Bool) (e : Event) : String := e.name ++ " " ++ e.subject ++ e.details withJobs

end Event

/-- A callback may cancel the cycle, and it may crash. -/
structure Reaction where
  cancels : Bool := false
  crashes : Bool := false
  deriving DecidableEq, Inhabited

structure Listener where
  react : Event → Reaction

namespace Listener

def silent : Listener := ⟨fun _ => {}⟩

/-- Crashes at the events of the given names, and cancels at those of the given names and
subjects. -/
def scripted (crashes : List String) (cancels : List (String × String)) : Listener where
  react e :=
    { crashes := crashes.contains e.name
      cancels := cancels.contains (e.name, e.subject) }

end Listener

end CalcCycle
