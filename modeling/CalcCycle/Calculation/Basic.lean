import CalcCycle.Calculation.Inputs
import CalcCycle.Feed.Token

/-! A calculation declares what it needs and what it can produce for a target, and answers a call with
values, a fault, or by crashing. -/

namespace CalcCycle

/-- What a call knows about the run it belongs to. -/
structure CallContext where
  view : String
  token : Token
  job : Nat
  deriving DecidableEq, Inhabited

inductive Outcome
  | values (vs : List Computed)
  | fault (f : Fault)
  /-- A crash may come with a message. -/
  | crash (message : Option String)
  deriving Inhabited

/-- What a calculation may do to the run while it is being called. -/
inductive Interrupt
  | cancelCycle
  /-- Closes the cache that is open for the running view and snapshot. -/
  | releaseCache
  deriving DecidableEq

structure Reply where
  outcome : Outcome
  interrupts : List Interrupt := []
  deriving Inhabited

structure Calculation where
  name : String
  appliesTo : Target → Bool := fun _ => true
  requirements : Target → List Requirement
  results : Target → List Specification
  call : CallContext → Target → Inputs → Reply

namespace Calculation

/-- Stands for a value that comes from the feed; it is never meant to be called. -/
def liveSource (r : Requirement) : Calculation :=
  let name := "Live Data Source For " ++ r.text
  { name
    requirements := fun _ => []
    results := fun _ => [r.resolve]
    call := fun _ _ _ => ⟨.fault (.notExecutable name), []⟩ }

end Calculation

end CalcCycle
