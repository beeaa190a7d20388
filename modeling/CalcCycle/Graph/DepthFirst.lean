/-! The order in which a depth first walk leaves the nodes of a graph, last first. In a graph without
cycles each node comes before all that can be reached from it. -/

namespace CalcCycle.DepthFirst

variable {α : Type} [DecidableEq α]

/-- The nodes entered so far, and those left again, the latest first. -/
structure Walk (α : Type) where
  entered : List α := []
  left : List α := []

/-- Enters `a`, walks on from its successors, the last of them first, and leaves `a`. Every level
enters a new node, so as many levels as there are nodes are enough. -/
def visit (successors : α → List α) : Nat → α → Walk α → Walk α
  | 0, _, w => w
  | fuel + 1, a, w =>
    if a ∈ w.entered then w
    else
      let entered : Walk α := { w with entered := a :: w.entered }
      let walked := (successors a).reverse.foldl (fun w b => visit successors fuel b w) entered
      { walked with left := a :: walked.left }

def order (nodes : List α) (successors : α → List α) : List α :=
  (nodes.foldl (fun w a => visit successors nodes.length a w) {}).left

/-- Every edge leads from an earlier to a later place of the list. -/
def isForward (order : List α) (edges : List (α × α)) : Bool :=
  edges.all fun (a, b) => order.idxOf a < order.idxOf b

end CalcCycle.DepthFirst
