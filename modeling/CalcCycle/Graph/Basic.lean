import CalcCycle.Graph.Node
import CalcCycle.Graph.DepthFirst

/-! The graph of the nodes for one target. An edge leads from the producer of a value to each node
that reads it; the nodes stand in an order that follows the edges. -/

namespace CalcCycle

inductive GraphError
  | circularDependency (target : Target)
  | duplicateProducer (specification : Specification)
  | duplicateNode (node : NodeId)
  | targetMismatch (node : NodeId) (nodeTarget graphTarget : Target)
  | notApplicable (calculation : String) (target : Target)
  | unknownNode (node : NodeId)
  deriving DecidableEq, Inhabited

def GraphError.message : GraphError → String
  | circularDependency t => "circular dependency in graph for " ++ t.text
  | duplicateProducer s => "value " ++ s.text ++ " is produced by more than one node"
  | duplicateNode n => "node id " ++ n.text ++ " is used by more than one node"
  | targetMismatch n nt gt =>
    "node " ++ n.text ++ " targets " ++ nt.text ++ ", graph is for " ++ gt.text
  | notApplicable f t => "function " ++ f ++ " is not applicable to " ++ t.text
  | unknownNode n => "node id " ++ n.text ++ " is out of range for this model"

/-- The name of the error for programs. -/
def GraphError.code : GraphError → String
  | circularDependency .. => "CircularDependency"
  | duplicateProducer .. => "DuplicateProducer"
  | duplicateNode .. => "DuplicateNode"
  | targetMismatch .. => "TargetMismatch"
  | notApplicable .. => "NotApplicable"
  | unknownNode .. => "UnknownNode"

structure Graph where
  target : Target
  nodes : List Node
  /-- Producer and consumer, the latest edge first. -/
  edges : List (NodeId × NodeId)
  liveData : SortedSet Requirement

namespace Graph

/-- Checks the nodes in turn against the target, the ids in use and the values already produced. -/
def validate (target : Target) : List NodeId → List Specification → List Node → Except GraphError Unit
  | _, _, [] => .ok ()
  | ids, produced, n :: rest =>
    if n.target ≠ target then .error (.targetMismatch n.id n.target target)
    else if n.id ∈ ids then .error (.duplicateNode n.id)
    else
      match n.outputs.find? (· ∈ produced) with
      | some s => .error (.duplicateProducer s)
      | none => validate target (n.id :: ids) (n.outputs ++ produced) rest

def producerAmong (nodes : List Node) (s : Specification) : Option NodeId :=
  (nodes.find? (·.produces s)).map (·.id)

/-- A second edge between the same nodes is not added. -/
def addEdge (edges : List (NodeId × NodeId)) (e : NodeId × NodeId) : List (NodeId × NodeId) :=
  if e ∈ edges then edges else e :: edges

def edgesInto (nodes : List Node) (edges : List (NodeId × NodeId)) (n : Node) :
    List (NodeId × NodeId) :=
  (n.inputs.filterMap (producerAmong nodes)).foldl (fun edges p => addEdge edges (p, n.id)) edges

def edgesAmong (nodes : List Node) : List (NodeId × NodeId) := nodes.foldl (edgesInto nodes) []

def targetsOf (edges : List (NodeId × NodeId)) (id : NodeId) : List NodeId :=
  (edges.filter (·.1 == id)).map (·.2)

def sourcesOf (edges : List (NodeId × NodeId)) (id : NodeId) : List NodeId :=
  (edges.filter (·.2 == id)).map (·.1)

def ofNodes (target : Target) (nodes : List Node) (liveData : List Requirement) :
    Except GraphError Graph := do
  validate target [] [] nodes
  let edges := edgesAmong nodes
  let order := DepthFirst.order (nodes.map (·.id)) (targetsOf edges)
  if DepthFirst.isForward order edges then
    pure
      { target
        nodes := order.filterMap fun id => nodes.find? (·.id == id)
        edges
        liveData := .ofList liveData }
  else throw (.circularDependency target)

def order (g : Graph) : List NodeId := g.nodes.map (·.id)

def outputs (g : Graph) : List Specification := g.nodes.flatMap (·.outputs)

def producerOf (g : Graph) (s : Specification) : Option NodeId := producerAmong g.nodes s

/-- The producers of what the node reads. -/
def dependencies (g : Graph) (id : NodeId) : List NodeId := sourcesOf g.edges id

/-- The readers of what the node produces. -/
def dependents (g : Graph) (id : NodeId) : List NodeId := targetsOf g.edges id

end Graph

end CalcCycle
