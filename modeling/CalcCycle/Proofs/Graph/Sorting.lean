import CalcCycle.Proofs.Graph.Acceptance

/-! Which lists of nodes make a graph, and in which order it has them. The nodes must pass the checks and have
no cycle; then the graph has each of them once, after the producers of what it reads. A list that is refused
is refused for its first node that fails a check, and for a cycle only if none does. -/

namespace CalcCycle.Graph

/-- What nodes have to be to make a graph for the target. -/
structure Sortable (t : Target) (nodes : List Node) : Prop extends Checked t nodes where
  acyclic : DepthFirst.Acyclic (Feeds nodes)

/-- The graph has the nodes, each after those that produce what it reads, and knows the producer of a value. -/
structure Sorts (g : Graph) (nodes : List Node) : Prop where
  perm : g.nodes.Perm nodes
  after : ∀ front b back, g.nodes = front ++ b :: back → ∀ a ∈ nodes, (∃ s ∈ b.inputs, s ∈ a.outputs) → a ∈ front
  producer : ∀ s id, g.producerOf s = some id ↔ ∃ n ∈ nodes, n.id = id ∧ s ∈ n.outputs

section Accepting
variable {t : Target} {nodes : List Node} {liveData : List Requirement} {g : Graph}

theorem sortable_of_ofNodes (h : ofNodes t nodes liveData = .ok g) : Sortable t nodes :=
  ⟨validate_ok_iff.1 (ofNodes_ok h).1, acyclic_of_ofNodes h⟩

theorem Sortable.exists_graph (h : Sortable t nodes) (liveData : List Requirement) :
    ∃ g, ofNodes t nodes liveData = .ok g := by
  cases hg : ofNodes t nodes liveData with
  | ok g => exact ⟨g, rfl⟩
  | error e =>
    rcases ofNodes_error_iff.1 hg with hfault | ⟨-, hcyclic, -⟩
    · exact absurd h.toChecked hfault.not_checked
    · exact absurd h.acyclic hcyclic

theorem sorts_of_ofNodes (h : ofNodes t nodes liveData = .ok g) : g.Sorts nodes := by
  have hperm := perm_of_ofNodes h
  have hwf := wellFormed_of_ofNodes h
  refine ⟨hperm, ?_, fun s id => ?_⟩
  · intro front b back hsplit a ha hreads
    have hb : b ∈ g.nodes := by simp [hsplit]
    have hedge := (hwf.mem_edges b hb a.id).2 ⟨a, hperm.mem_iff.2 ha, rfl, hreads⟩
    obtain ⟨a', ha', hid⟩ := hwf.forward front b back hsplit a.id hedge
    have heq := eq_of_id_eq hwf.ids (by simp [hsplit, ha']) (hperm.mem_iff.2 ha) hid
    rwa [← heq]
  · rw [producerOf, producerAmong_eq_some_iff hwf.apart]
    simp only [hperm.mem_iff]

end Accepting

/-- Exactly the nodes that pass the checks and have no cycle make a graph, which has them in the order of their
reading. All others are refused, for the first violation that there is or else for the cycle. -/
theorem ofNodes_sorts (t : Target) (nodes : List Node) (liveData : List Requirement) :
    ((∃ g, ofNodes t nodes liveData = .ok g) ↔ Sortable t nodes) ∧
      (∀ g, ofNodes t nodes liveData = .ok g → g.Sorts nodes) ∧
      ∀ e, ofNodes t nodes liveData = .error e ↔ FirstFault t [] nodes e ∨
        Checked t nodes ∧ ¬ DepthFirst.Acyclic (Feeds nodes) ∧ e = .circularDependency t :=
  ⟨⟨fun ⟨_, hg⟩ => sortable_of_ofNodes hg, fun h => h.exists_graph liveData⟩, fun _ hg => sorts_of_ofNodes hg,
    fun _ => ofNodes_error_iff⟩

/-! Nodes that are listed before the producers of what they read, and one that reads its own value. -/

def link (id : Nat) (inputs outputs : List String) : Node :=
  let calculation : Calculation :=
    { name := "Link", requirements := fun _ => [], results := fun _ => [], call := fun _ _ _ => ⟨.values [], []⟩ }
  let value := fun name => { name, target := .position "P" }
  .make ⟨id⟩ (.position "P") calculation (inputs.map value) (outputs.map value)

theorem links_sorted :
    Sortable (.position "P") [link 0 ["C", "A", "C"] ["D"], link 1 ["A"] ["C"], link 2 [] ["A", "B"]] ∧
      (ofNodes (.position "P") [link 0 ["C", "A", "C"] ["D"], link 1 ["A"] ["C"], link 2 [] ["A", "B"]] []).map
        (·.order.map (·.index)) = .ok [2, 1, 0] ∧
      ¬ Sortable (.position "P") [link 0 ["A"] ["A"]] ∧
      FirstFault (.position "P") [] [link 0 [] ["A"], link 1 [] ["B", "A"], link 0 [] ["C"]]
        (.duplicateProducer { name := "A", target := .position "P" }) := by
  refine ⟨(ofNodes_sorts _ _ []).1.1 ⟨_, rfl⟩, rfl, fun h => ?_,
    (((ofNodes_sorts _ _ []).2.2 _).1 rfl).resolve_right ?_⟩
  · obtain ⟨g, hg⟩ := (ofNodes_sorts _ _ []).1.2 h
    have hrefused : ofNodes (.position "P") [link 0 ["A"] ["A"]] [] = .error (.circularDependency (.position "P")) :=
      rfl
    rw [hrefused] at hg
    cases hg
  · rintro ⟨-, -, h⟩
    cases h

end CalcCycle.Graph
