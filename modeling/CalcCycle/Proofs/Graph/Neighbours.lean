import CalcCycle.Proofs.Graph.Assembly
import CalcCycle.Proofs.Graph.Sorting
import Mathlib.Algebra.GroupWithZero.Nat

/-! The neighbours in an accepted graph. The dependencies of a node are the producers of its inputs and its
dependents the readers of its outputs, each once, however many values two nodes have in common. So a scheduler
that waits for one report from each dependency, and passes each report on to all dependents, neither waits
for a node twice nor misses one. -/

namespace CalcCycle.Graph

variable {t : Target} {nodes : List Node} {liveData : List Requirement} {g : Graph}

theorem edges_iff_feeds (h : ofNodes t nodes liveData = .ok g) {p c : NodeId} :
    (p, c) ∈ g.edges ↔ Feeds g.nodes p c := by
  have hperm := perm_of_ofNodes h
  obtain ⟨hv, -, rfl⟩ := ofNodes_ok h
  rw [mem_edgesAmong_iff_feeds (validate_ok hv).2.2]
  simp only [Feeds, hperm.mem_iff]

/-- Edges counted at the nodes to which they belong by one of their ends are the edges. -/
theorem sum_length_filter {keys : List NodeId} (hkeys : keys.Nodup) (key : NodeId × NodeId → NodeId)
    {edges : List (NodeId × NodeId)} (h : ∀ e ∈ edges, key e ∈ keys) :
    (keys.map fun k => (edges.filter (key · == k)).length).sum = edges.length := by
  rw [← List.length_flatMap]
  exact (flatMap_filter_perm hkeys key h).length_eq

/-- What the neighbours of a graph are. -/
structure Adjacent (g : Graph) : Prop where
  dependencies : ∀ b ∈ g.nodes, (g.dependencies b.id).Nodup ∧
    ∀ id, id ∈ g.dependencies b.id ↔ ∃ a ∈ g.nodes, a.id = id ∧ ∃ s ∈ b.inputs, s ∈ a.outputs
  dependents : ∀ a ∈ g.nodes, (g.dependents a.id).Nodup ∧
    ∀ id, id ∈ g.dependents a.id ↔ ∃ b ∈ g.nodes, b.id = id ∧ ∃ s ∈ b.inputs, s ∈ a.outputs
  converse : ∀ a b, a ∈ g.dependencies b ↔ b ∈ g.dependents a
  notOwn : ∀ id, id ∉ g.dependencies id ∧ id ∉ g.dependents id
  /-- Every edge is counted once from either end. -/
  count : (g.nodes.map fun n => (g.dependencies n.id).length).sum = g.edges.length ∧
    (g.nodes.map fun n => (g.dependents n.id).length).sum = g.edges.length
  foreign : ∀ id, id ∉ g.order → g.dependencies id = [] ∧ g.dependents id = []

theorem mem_order_of_feeds {p c : NodeId} (h : Feeds g.nodes p c) : p ∈ g.order ∧ c ∈ g.order := by
  obtain ⟨a, ha, b, hb, rfl, rfl, -⟩ := h
  exact ⟨List.mem_map_of_mem ha, List.mem_map_of_mem hb⟩

theorem WellFormed.feeds_dependents (hg : g.WellFormed) {a : Node} (ha : a ∈ g.nodes) {id : NodeId} :
    Feeds g.nodes a.id id ↔ ∃ b ∈ g.nodes, b.id = id ∧ ∃ s ∈ b.inputs, s ∈ a.outputs := by
  constructor
  · rintro ⟨a', ha', b, hb, hid, rfl, hreads⟩
    obtain rfl := eq_of_id_eq hg.ids ha' ha hid
    exact ⟨b, hb, rfl, hreads⟩
  · rintro ⟨b, hb, rfl, hreads⟩
    exact ⟨a, ha, b, hb, rfl, rfl, hreads⟩

/-- No node reads what it produces itself. -/
theorem not_feeds_self (h : ofNodes t nodes liveData = .ok g) (id : NodeId) : ¬ Feeds g.nodes id id := by
  rintro ⟨a, ha, b, hb, rfl, hid, s, hin, hout⟩
  have hg := wellFormed_of_ofNodes h
  obtain rfl := eq_of_id_eq hg.ids hb ha hid
  exact hg.not_mem_own_outputs hb hin hout

theorem length_edges (h : ofNodes t nodes liveData = .ok g) :
    (g.nodes.map fun n => (g.dependencies n.id).length).sum = g.edges.length ∧
      (g.nodes.map fun n => (g.dependents n.id).length).sum = g.edges.length := by
  have hids : g.order.Nodup := (wellFormed_of_ofNodes h).ids
  have hends : ∀ e ∈ g.edges, e.1 ∈ g.order ∧ e.2 ∈ g.order :=
    fun e he => mem_order_of_feeds ((edges_iff_feeds h).1 he)
  have hinto := sum_length_filter hids Prod.snd fun e he => (hends e he).2
  have hout := sum_length_filter hids Prod.fst fun e he => (hends e he).1
  rw [order, List.map_map] at hinto hout
  simp only [Graph.dependencies, Graph.dependents, sourcesOf, targetsOf, List.length_map]
  exact ⟨hinto, hout⟩

/-- The neighbours in every accepted graph are exact: who feeds whom, each pair once. -/
theorem neighbours_exact (h : ofNodes t nodes liveData = .ok g) : g.Adjacent := by
  have hg := wellFormed_of_ofNodes h
  have hdependents : ∀ a b, b ∈ g.dependents a ↔ Feeds g.nodes a b :=
    fun _ _ => mem_targetsOf.trans (edges_iff_feeds h)
  have hdependencies : ∀ a b, a ∈ g.dependencies b ↔ Feeds g.nodes a b :=
    fun _ _ => mem_sourcesOf.trans (edges_iff_feeds h)
  exact
    { dependencies := fun b hb => ⟨hg.nodup_dependencies b.id, fun _ => hg.mem_dependencies hb⟩
      dependents := fun a ha => ⟨hg.nodup_dependents a.id, fun _ => (hdependents _ _).trans (hg.feeds_dependents ha)⟩
      converse := fun _ _ => mem_dependents.symm
      notOwn := fun id => ⟨fun hmem => not_feeds_self h id ((hdependencies _ _).1 hmem),
        fun hmem => not_feeds_self h id ((hdependents _ _).1 hmem)⟩
      count := length_edges h
      foreign := fun id hid =>
        ⟨List.eq_nil_iff_forall_not_mem.2 fun _ hmem => hid (mem_order_of_feeds ((hdependencies _ _).1 hmem)).2,
          List.eq_nil_iff_forall_not_mem.2 fun _ hmem => hid (mem_order_of_feeds ((hdependents _ _).1 hmem)).1⟩ }

/-! Inputs that are repeated, and a producer of several values that one node reads. -/

def links : List Node := [link 0 ["B", "C", "A", "C"] [], link 1 ["A", "B", "A"] ["C"], link 2 [] ["A", "B"]]

theorem links_adjacent :
    ∃ g, ofNodes (.position "P") links [] = .ok g ∧ g.Adjacent ∧ g.edges.length = 3 ∧
      (g.dependencies ⟨0⟩).map (·.index) = [1, 2] ∧ (g.dependents ⟨2⟩).map (·.index) = [1, 0] := by
  obtain ⟨g, hg⟩ : ∃ g, ofNodes (.position "P") links [] = .ok g := ⟨_, rfl⟩
  refine ⟨g, hg, neighbours_exact hg, ?_⟩
  obtain ⟨-, -, rfl⟩ := ofNodes_ok hg
  exact ⟨rfl, rfl, rfl⟩

end CalcCycle.Graph
