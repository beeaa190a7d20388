import CalcCycle.Graph.Model
import CalcCycle.Json.Decode

/-! JSON forms of node ids and of the counts of a model. -/

namespace CalcCycle

namespace NodeId

def toJson (n : NodeId) : Json := .natural n.index

def reader : Reader NodeId := fun l d => (Reader.natural 32 l d).map NodeId.mk

end NodeId

namespace ModelStats

def fields : List String := ["graph_count", "node_count", "edge_count", "live_data_count"]

def toJson (s : ModelStats) : Json :=
  .object (fields.zip ([s.graphs, s.nodes, s.edges, s.liveData].map .natural))

def reader : Reader ModelStats := fun l d => do
  let p ← Reader.parts fields l d
  let count := fun i => p.required i (Reader.natural 64)
  pure { graphs := ← count 0, nodes := ← count 1, edges := ← count 2, liveData := ← count 3 }

end ModelStats

end CalcCycle
