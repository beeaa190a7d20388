import CalcCycle.Calendar.Span
import CalcCycle.Execution.Job

/-! The run of one graph. The scheduler dispatches a node when its last dependency has completed, and
takes in completions in the order in which they are reported; the jobs advance in any order in
between. A schedule is a sequence of moves, and a worker pool is a way to choose one. -/

namespace CalcCycle

structure GraphReport where
  target : Target
  nodeCount : Nat
  executed : Nat
  failed : Nat
  notDispatched : Nat
  elapsed : Span := {}
  deriving DecidableEq, Inhabited

structure Completion where
  node : NodeId
  outcome : Except Failure NodeState

structure GraphRun where
  graph : Graph
  state : RunState
  /-- The id of the job dispatched last. -/
  lastJob : Nat
  /-- For each node the number of dependencies that have not completed. -/
  pending : List (NodeId × Int)
  ready : List Node
  /-- Jobs that have not reported, in the order of dispatch. -/
  jobs : List Job := []
  /-- Reports that have not been taken in, in the order of arrival. -/
  reports : List Completion := []
  /-- The number of nodes dispatched whose completion has not been taken in. -/
  outstanding : Nat := 0
  executed : Nat := 0
  failed : Nat := 0
  fatal : Option Failure := none

/-- What may happen next in the run of a graph. Jobs are named by their place in the list. -/
inductive Move
  /-- The scheduler takes a node from the ready list. -/
  | dispatch
  | work (place : Nat)
  | report (place : Nat)
  /-- The scheduler takes in a completion. -/
  | receive
  /-- Somebody cancels the cycle. -/
  | cancel
  deriving DecidableEq, Repr

namespace GraphRun

def start (w : RunSetting) (g : Graph) (s : RunState) (lastJob : Nat) : GraphRun where
  graph := g
  state := s.notify w (.graphStarted g.target g.nodes.length)
  lastJob := lastJob
  pending := g.nodes.map fun n => (n.id, ((g.dependencies n.id).length : Int))
  ready := g.nodes.filter fun n => (g.dependencies n.id).isEmpty

def isDone (r : GraphRun) : Bool := r.ready.isEmpty && r.outstanding == 0

/-- A dependency of the node has completed; a node without further ones is ready. -/
def countDown (r : GraphRun) (n : Node) : GraphRun :=
  let pending := r.pending.map fun (id, k) => if id = n.id then (id, k - 1) else (id, k)
  let ready := if pending.lookup n.id = some 0 then r.ready ++ [n] else r.ready
  { r with pending, ready }

def successors (r : GraphRun) (id : NodeId) : List Node :=
  (r.graph.dependents id).filterMap fun d => r.graph.nodes.find? (·.id == d)

/-- A node that completed lets its dependents go on, also if it failed; of the fatal failures the
first is kept. -/
def takeIn (r : GraphRun) (c : Completion) : GraphRun :=
  let r := { r with outstanding := r.outstanding - 1 }
  match c.outcome with
  | .ok state =>
    let r := match state with
      | .executed => { r with executed := r.executed + 1 }
      | _ => { r with failed := r.failed + 1 }
    (r.successors c.node).foldl countDown r
  | .error e => { r with fatal := r.fatal <|> some e }

/-- After a fatal failure or a cancellation the ready nodes are dropped instead of dispatched. -/
def isStopped (r : GraphRun) : Bool := r.fatal.isSome || r.state.cancelled

/-- The run after a move, if the move is possible. -/
def step (w : RunSetting) (m : Move) (r : GraphRun) : Option GraphRun :=
  match m with
  | .dispatch =>
    match r.ready with
    | [] => none
    | n :: rest =>
      if r.isStopped then some { r with ready := rest }
      else
        some
          { r with
            ready := rest
            lastJob := r.lastJob + 1
            jobs := r.jobs ++ [{ id := r.lastJob + 1, node := n }]
            outstanding := r.outstanding + 1 }
  | .work i => do
    let j ← r.jobs[i]?
    if j.outcome?.isSome then none
    else
      let (state, phase) := j.advance w r.state
      some { r with state, jobs := r.jobs.set i { j with phase } }
  | .report i => do
    let j ← r.jobs[i]?
    let outcome ← j.outcome?
    some { r with jobs := r.jobs.eraseIdx i, reports := r.reports ++ [⟨j.node.id, outcome⟩] }
  | .receive =>
    match r.ready, r.reports with
    | [], c :: rest => some ({ r with reports := rest }.takeIn c)
    | _, _ => none
  | .cancel => some { r with state := { r.state with cancelled := true } }

/-- Makes the move if it is possible. -/
def act (w : RunSetting) (m : Move) (r : GraphRun) : GraphRun := (r.step w m).getD r

def actTimes (w : RunSetting) (m : Move) : Nat → GraphRun → GraphRun
  | 0, r => r
  | n + 1, r => actTimes w m n (r.act w m)

/-! ### One worker -/

def dispatchReady (w : RunSetting) (r : GraphRun) : GraphRun := r.actTimes w .dispatch r.ready.length

/-- The worker runs the oldest job to its end and reports it. -/
def serveOldest (w : RunSetting) (r : GraphRun) : GraphRun :=
  let called := match r.jobs with
    | j :: _ => r.actTimes w (.work 0) j.actionsToCall
    | [] => r
  let finished := match called.jobs with
    | j :: _ => called.actTimes w (.work 0) j.actionsAfterCall
    | [] => called
  finished.act w (.report 0)

def round (w : RunSetting) (r : GraphRun) : GraphRun :=
  ((r.dispatchReady w).serveOldest w).act w .receive

/-- Every round completes a node, so there are at most as many as nodes. -/
def rounds (w : RunSetting) : Nat → GraphRun → GraphRun
  | 0, r => r
  | n + 1, r => rounds w n (r.round w)

def serve (w : RunSetting) (r : GraphRun) : GraphRun :=
  (r.rounds w r.graph.nodes.length).dispatchReady w

/-! ### Result -/

def resolved (r : GraphRun) : Nat := r.executed + r.failed

def summary (r : GraphRun) : GraphReport where
  target := r.graph.target
  nodeCount := r.graph.nodes.length
  executed := r.executed
  failed := r.failed
  notDispatched := r.graph.nodes.length - r.resolved

def stalledText (r : GraphRun) : String :=
  "graph for " ++ r.graph.target.text ++ " stalled with " ++
    toString (r.graph.nodes.length - r.resolved) ++ " of " ++ toString r.graph.nodes.length ++
    " nodes unresolved"

/-- The report on a run that is done, or the failure that ended it. -/
def result (r : GraphRun) : Except Failure GraphReport :=
  match r.fatal with
  | some e => .error e
  | none =>
    if ¬ r.state.cancelled ∧ r.resolved ≠ r.graph.nodes.length then .error (.invariant r.stalledText)
    else .ok r.summary

end GraphRun

/-- How the jobs of a graph are brought to their end. -/
structure WorkerPool where
  drive : RunSetting → GraphRun → GraphRun

/-- One worker that takes the jobs in the order of dispatch. -/
def WorkerPool.single : WorkerPool := ⟨GraphRun.serve⟩

namespace GraphRun

/-- Runs a graph and tells the listener when it is over. -/
def conduct (pool : WorkerPool) (w : RunSetting) (g : Graph) (s : RunState) (lastJob : Nat) :
    Except Failure GraphReport × RunState × Nat :=
  let r := pool.drive w (start w g s lastJob)
  let r := { r with state := r.state.notify w (.graphCompleted g.target) }
  (r.result, r.state, r.lastJob)

end GraphRun

end CalcCycle
