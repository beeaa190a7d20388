import CalcCycle.Cache.Store
import CalcCycle.Execution.Event
import CalcCycle.Execution.Tracker

/-! A job runs one node. It is a sequence of single actions on what all jobs share, so the actions of
several jobs may take turns in any order. -/

namespace CalcCycle

/-- What stays the same throughout the run of a cycle. -/
structure RunSetting where
  view : String
  token : Token
  cache : CacheHandle
  listener : Listener
  /-- A crash of a calculation fails its node and not the run. -/
  containCrashes : Bool

/-- A calculation was called. -/
structure Call where
  node : NodeId
  job : Nat
  inputs : Inputs
  deriving Inhabited

/-- What the jobs of a cycle share. Events and calls are kept in the order in which they happen. -/
structure RunState where
  caches : CacheStore
  tracker : Tracker
  cancelled : Bool := false
  events : List Event := []
  calls : List Call := []
  deriving Inhabited

namespace RunState

/-- The listener hears the event. A crash of its callback is contained and has no effect. -/
def notify (w : RunSetting) (e : Event) (s : RunState) : RunState :=
  { s with events := s.events ++ [e], cancelled := s.cancelled || (w.listener.react e).cancels }

def interrupt (w : RunSetting) (s : RunState) : Interrupt → RunState
  | .cancelCycle => { s with cancelled := true }
  | .releaseCache => { s with caches := (s.caches.release w.view w.token).2 }

end RunState

inductive Phase
  /-- Waiting for a worker. -/
  | queued
  /-- The node is executing, and nobody has been told. -/
  | begun
  | reading (rest : List Specification) (inputs : Inputs) (missing : List Specification)
  /-- All inputs are at hand. -/
  | ready (inputs : Inputs)
  | writing (rest : List Computed)
  | failing (reason : FailureReason)
  /-- The node is in a terminal state, and nobody has been told. -/
  | settled (state : NodeState)
  | finished (outcome : Except Failure NodeState)
  deriving Inhabited

structure Job where
  id : Nat
  node : Node
  phase : Phase := .queued

namespace Job

def checkOutputs (n : Node) (seen : List Specification) : List Computed → Except Fault Unit
  | [] => .ok ()
  | v :: rest =>
    if ¬ n.produces v.specification then
      .error (.invalidOutput ("undeclared output " ++ v.specification.text))
    else if v.specification ∈ seen then
      .error (.invalidOutput ("output " ++ v.specification.text ++ " returned twice"))
    else checkOutputs n (v.specification :: seen) rest

/-- A node produces at least one value, only values that it declares, and none of them twice. -/
def validate (n : Node) (vs : List Computed) : Except Fault Unit :=
  if vs.isEmpty then .error (.invalidOutput "function produced no results") else checkOutputs n [] vs

def crashText (message : Option String) : String := message.getD "unknown panic"

/-- What follows from the outcome of a call. -/
def afterCall (w : RunSetting) (n : Node) : Outcome → Phase
  | .values vs =>
    match validate n vs with
    | .ok () => .writing vs
    | .error f => .failing (.functionFault f.message)
  | .fault f => .failing (.functionFault f.message)
  | .crash message =>
    let text := crashText message
    if w.containCrashes then
      .failing (.functionFault (Fault.calculation ("panicked: " ++ text)).message)
    else
      .finished (.error (.invariant ("function " ++ n.calculation.name ++ " panicked on " ++
        n.target.text ++ ": " ++ text)))

def context (w : RunSetting) (j : Job) : CallContext := ⟨w.view, w.token, j.id⟩

/-- The next action of a job. -/
def advance (w : RunSetting) (s : RunState) (j : Job) : RunState × Phase :=
  match j.phase with
  | .queued =>
    match s.tracker.begin j.node.id with
    | .ok t => ({ s with tracker := t }, .begun)
    | .error e => (s, .finished (.error e))
  | .begun => (s.notify w (.nodeDispatched j.node.id j.id), .reading j.node.inputs .empty [])
  | .reading (spec :: rest) inputs missing =>
    match s.caches.read w.cache spec with
    | .ok (some v) => (s, .reading rest (Inputs.add inputs v) missing)
    | .ok none => (s, .reading rest inputs (missing ++ [spec]))
    | .error e => (s, .finished (.error (.cache e)))
  | .reading [] inputs missing =>
    (s, if missing.isEmpty then .ready inputs else .failing (.missingInputs missing))
  | .ready inputs =>
    let called := { s with calls := s.calls ++ [⟨j.node.id, j.id, inputs⟩] }
    let reply := j.node.calculation.call (j.context w) j.node.target inputs
    (reply.interrupts.foldl (RunState.interrupt w) called, afterCall w j.node reply.outcome)
  | .writing (v :: rest) =>
    match s.caches.write w.cache v with
    | .ok caches => ({ s with caches }, .writing rest)
    | .error e => (s, .finished (.error (.cache e)))
  | .writing [] =>
    match s.tracker.markExecuted j.node.id with
    | .ok t => ({ s with tracker := t }, .settled .executed)
    | .error e => (s, .finished (.error e))
  | .failing reason =>
    match s.tracker.markFailed j.node.id reason with
    | .ok t => ({ s with tracker := t }, .settled .failed)
    | .error e => (s, .finished (.error e))
  | .settled state => (s.notify w (.nodeCompleted j.node.id state), .finished (.ok state))
  | .finished outcome => (s, .finished outcome)

def outcome? (j : Job) : Option (Except Failure NodeState) :=
  match j.phase with
  | .finished outcome => some outcome
  | _ => none

/-- The actions up to the call of the calculation. -/
def actionsToCall (j : Job) : Nat := j.node.inputs.length + 4

/-- The actions that may be left after the call. -/
def actionsAfterCall (j : Job) : Nat :=
  match j.phase with
  | .writing rest => rest.length + 2
  | .failing _ => 2
  | .settled _ => 1
  | _ => 0

end Job

end CalcCycle
