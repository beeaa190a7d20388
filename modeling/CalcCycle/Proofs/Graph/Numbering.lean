import CalcCycle.Execution.Tracker
import CalcCycle.Proofs.Graph.Sorting
import Mathlib.Data.List.Perm.Subperm

/-! Which graphs make a model, and where it has their nodes. The ids must be the numbers below that of the nodes,
each once, and no value may have producers in two graphs. Then every number below that of the nodes names one
node, which is found by it, and every graph is found in the partition of its kind. -/

namespace CalcCycle.Model

/-- The ids over all graphs number the nodes, and no two graphs produce a value in common. -/
structure Numbered (graphs : List Graph) : Prop where
  ids : ((graphs.flatMap Graph.order).map (·.index)).Perm (List.range (total (·.nodes.length) graphs))
  apart : graphs.Pairwise fun a b => ∀ s ∈ a.outputs, s ∉ b.outputs

/-- The model finds each node of the graphs by its id and each graph by its kind, and nothing else. -/
structure Indexes (m : Model) (graphs : List Graph) : Prop where
  count : m.nodeCount = total (·.nodes.length) graphs
  node : ∀ id : NodeId, id.index < m.nodeCount → ∃ n, m.node? id = some n ∧ n.id = id ∧ (∃ g ∈ graphs, n ∈ g.nodes) ∧
    ∀ g ∈ graphs, ∀ a ∈ g.nodes, a.id = id → a = n
  beyond : ∀ id : NodeId, m.nodeCount ≤ id.index → m.node? id = none
  /-- The states of the nodes have the same numbers. -/
  tracked : ∀ g ∈ graphs, ∀ n ∈ g.nodes, (Tracker.start m.nodeCount).state? n.id = some .notStarted
  partition : ∀ k, m.partition k = graphs.filter (·.target.kind == k)
  /-- Over all kinds, every graph comes once. -/
  once : (TargetKind.executionOrder.flatMap m.partition).Perm graphs

variable {graphs : List Graph} {m : Model}

theorem mem_flatMap_order {id : NodeId} :
    id ∈ graphs.flatMap Graph.order ↔ ∃ g ∈ graphs, ∃ n ∈ g.nodes, n.id = id := by
  simp [Graph.order]

/-! ### Accepted models -/

theorem node?_eq_some_iff (h : ofGraphs graphs = .ok m) {id : NodeId} {n : Node} :
    m.node? id = some n ↔ (∃ g ∈ graphs, n ∈ g.nodes) ∧ n.id = id := by
  constructor
  · exact origin_of_ofGraphs h
  · rintro ⟨⟨g, hg, hn⟩, rfl⟩
    exact (nodes_of_ofGraphs h).2 g hg n hn

theorem exists_node {id : NodeId} (hlt : id.index < m.nodeCount) : ∃ n, m.node? id = some n :=
  ⟨_, List.getElem?_eq_getElem hlt⟩

/-- There are as many ids as numbers to be filled, and every number is one of them, so none comes twice. -/
theorem numbered_of_ofGraphs (h : ofGraphs graphs = .ok m) : Numbered graphs := by
  have hcount := (nodes_of_ofGraphs h).1
  refine ⟨?_, ?_⟩
  · have hsubset : List.range (total (·.nodes.length) graphs) ⊆ (graphs.flatMap Graph.order).map (·.index) := by
      intro i hi
      rw [List.mem_range, ← hcount] at hi
      obtain ⟨n, hn⟩ : ∃ n, m.node? ⟨i⟩ = some n := exists_node hi
      obtain ⟨⟨g, hg, hmem⟩, hid⟩ := (node?_eq_some_iff h).1 hn
      exact List.mem_map.2 ⟨⟨i⟩, mem_flatMap_order.2 ⟨g, hg, n, hmem, hid⟩, rfl⟩
    have hlength : ((graphs.flatMap Graph.order).map (·.index)).length ≤
        (List.range (total (·.nodes.length) graphs)).length := by
      rw [List.length_range, total_nodes, List.length_map, List.length_flatMap, List.length_flatMap]
      simp [Graph.order]
    exact ((List.subperm_of_subset List.nodup_range hsubset).perm_of_length_le hlength).symm
  · obtain ⟨rfl, hwf⟩ := ofGraphs_ok h
    refine hwf.separate.imp fun {a b} hab s hsa hsb => ?_
    obtain ⟨x, hx, hsx⟩ := Graph.mem_outputs.1 hsa
    obtain ⟨y, hy, hsy⟩ := Graph.mem_outputs.1 hsb
    exact (hab x hx y hy).2 s hsx hsy

theorem indexes_of_ofGraphs (h : ofGraphs graphs = .ok m) : m.Indexes graphs := by
  obtain ⟨hcount, hfound⟩ := nodes_of_ofGraphs h
  obtain ⟨hgraphs, hwf⟩ := ofGraphs_ok h
  refine
    { count := hcount
      node := ?_
      beyond := fun id hid => List.getElem?_eq_none hid
      tracked := ?_
      partition := fun k => by rw [partition, hgraphs]
      once := hgraphs ▸ m.schedule_perm }
  · intro id hlt
    obtain ⟨n, hn⟩ := exists_node hlt
    obtain ⟨hmem, hid⟩ := (node?_eq_some_iff h).1 hn
    refine ⟨n, hn, hid, hmem, fun g hg a ha haid => ?_⟩
    have hfounda := hfound g hg a ha
    rw [haid, hn] at hfounda
    exact (Option.some.inj hfounda).symm
  · intro g hg n hn
    have hlt := hwf.bound g (hgraphs ▸ hg) n hn
    simp [Tracker.state?, Tracker.start, hlt]

/-! ### Refused models -/

theorem Numbered.not_violates (h : Numbered graphs) {front back : List Graph} {g : Graph} {e : GraphError}
    (hsplit : graphs = front ++ g :: back) : ¬ Violates (total (·.nodes.length) graphs) front g e := by
  obtain ⟨hids, hapart⟩ := h
  have hnodup : (graphs.flatMap Graph.order).Nodup := (hids.nodup_iff.2 List.nodup_range).of_map
  intro hviolates
  cases hviolates with
  | @range n hn beyond =>
    have hmem : n.id ∈ graphs.flatMap Graph.order := mem_flatMap_order.2 ⟨g, by simp [hsplit], n, hn, rfl⟩
    have hlt := List.mem_range.1 (hids.mem_iff.1 (List.mem_map_of_mem hmem))
    omega
  | @id before n after hnodes used =>
    rw [hsplit, List.flatMap_append, List.flatMap_cons, List.nodup_append, List.nodup_append] at hnodup
    obtain ⟨-, ⟨hown, -, -⟩, hothers⟩ := hnodup
    obtain ⟨a, ha | ⟨x, hx, ha⟩, hid⟩ := used
    · rw [Graph.order, hnodes, List.map_append, List.map_cons] at hown
      exact (List.nodup_append.1 hown).2.2 _ (List.mem_map_of_mem ha) _ List.mem_cons_self hid
    · have hn : n.id ∈ g.order := List.mem_map_of_mem (by simp [hnodes])
      exact hothers _ (mem_flatMap_order.2 ⟨x, hx, a, ha, rfl⟩) _ (List.mem_append_left _ hn) hid
  | @output s here there =>
    obtain ⟨x, hx, hs⟩ := there
    rw [hsplit] at hapart
    exact (List.pairwise_append.1 hapart).2.2 x hx g List.mem_cons_self s hs here

/-- Exactly the graphs whose ids number their nodes, and of which no two produce the same value, make a model.
It has every node at its number. What is refused is refused for an id that is no number of a node, for one that
is used twice, or for a value that is produced in two graphs. -/
theorem ofGraphs_indexes (graphs : List Graph) :
    ((∃ m, ofGraphs graphs = .ok m) ↔ Numbered graphs) ∧ (∀ m, ofGraphs graphs = .ok m → m.Indexes graphs) ∧
      ∀ e, ofGraphs graphs = .error e →
        ∃ front g back, graphs = front ++ g :: back ∧ Violates (total (·.nodes.length) graphs) front g e := by
  refine ⟨⟨fun ⟨m, hm⟩ => numbered_of_ofGraphs hm, fun h => ?_⟩, fun m hm => indexes_of_ofGraphs hm,
    fun e he => ofGraphs_error he⟩
  cases hm : ofGraphs graphs with
  | ok m => exact ⟨m, rfl⟩
  | error e =>
    obtain ⟨front, g, back, hsplit, hviolates⟩ := ofGraphs_error hm
    exact absurd hviolates (h.not_violates hsplit)

/-! Two graphs of which each has numbers that the other lacks. -/

theorem links_numbered :
    ∃ a b m, Graph.ofNodes (.position "P") [Graph.link 2 ["B"] ["C"], Graph.link 0 [] ["B"]] [] = .ok a ∧
      Graph.ofNodes (.position "P") [Graph.link 1 ["C"] ["D"]] [] = .ok b ∧ ofGraphs [a, b] = .ok m ∧
      Numbered [a, b] ∧ m.Indexes [a, b] ∧ ¬ Numbered [a] ∧
      ∃ front g back, [a, a] = front ++ g :: back ∧ Violates 4 front g (.duplicateNode ⟨0⟩) := by
  obtain ⟨hnumbered, hindexes, -⟩ := ofGraphs_indexes _
  refine ⟨_, _, _, rfl, rfl, rfl, hnumbered.1 ⟨_, rfl⟩, hindexes _ rfl, fun h => ?_,
    (ofGraphs_indexes _).2.2 _ rfl⟩
  obtain ⟨m, hm⟩ := (ofGraphs_indexes _).1.2 h
  cases hm

end CalcCycle.Model
