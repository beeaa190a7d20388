import CalcCycle.Graph.Basic

/-! A model is a list of graphs whose node ids are the numbers from zero on and whose values have one
producer each. -/

namespace CalcCycle

structure Model where
  graphs : List Graph
  /-- The nodes by id. -/
  nodes : List Node

structure ModelStats where
  graphs : Nat
  nodes : Nat
  edges : Nat
  liveData : Nat
  deriving DecidableEq, Inhabited

namespace Model

/-- The slots that are filled, one for each node of the model, and the values produced so far. -/
structure Filling where
  slots : List (Option Node)
  produced : List Specification := []

def placeNode (slots : List (Option Node)) (n : Node) : Except GraphError (List (Option Node)) :=
  match slots[n.id.index]? with
  | none => .error (.unknownNode n.id)
  | some (some _) => .error (.duplicateNode n.id)
  | some none => .ok (slots.set n.id.index (some n))

def placeGraph (f : Filling) (g : Graph) : Except GraphError Filling := do
  let slots ← g.nodes.foldlM placeNode f.slots
  match g.outputs.find? (· ∈ f.produced) with
  | some s => throw (.duplicateProducer s)
  | none => pure { slots, produced := g.outputs ++ f.produced }

/-- A count added up over the graphs. -/
def total (count : Graph → Nat) : List Graph → Nat
  | [] => 0
  | g :: rest => count g + total count rest

def ofGraphs (graphs : List Graph) : Except GraphError Model := do
  let slots := List.replicate (total (·.nodes.length) graphs) none
  let filling ← graphs.foldlM placeGraph { slots }
  pure { graphs, nodes := filling.slots.filterMap id }

/-- The graphs for targets of one kind. -/
def partition (m : Model) (k : TargetKind) : List Graph := m.graphs.filter (·.target.kind == k)

/-- All graphs, kind by kind. -/
def schedule (m : Model) : List Graph := TargetKind.executionOrder.flatMap m.partition

def graphFor (m : Model) (t : Target) : Option Graph := m.graphs.find? (·.target == t)

def liveData (m : Model) : SortedSet Requirement :=
  m.graphs.foldl (fun s g => s.insertAll g.liveData.elements) .empty

def node? (m : Model) (id : NodeId) : Option Node := m.nodes[id.index]?

def nodeCount (m : Model) : Nat := m.nodes.length

def stats (m : Model) : ModelStats where
  graphs := m.graphs.length
  nodes := m.nodeCount
  edges := total (·.edges.length) m.graphs
  liveData := m.liveData.size

end Model

end CalcCycle
