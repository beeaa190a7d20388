import CalcCycle.Proofs.Graph.Acceptance
import CalcCycle.Proofs.Graph.Registration
import Mathlib.Data.List.Perm.Basic

/-! How the nodes of a blueprint come into its model. There is one node for each registration, with the place
of the registration as its id; grouping the nodes by target neither loses nor repeats one; and the nodes of the
model stand in the order of the registrations. -/

namespace CalcCycle

/-- Elements grouped by a key are the elements. -/
theorem flatMap_filter_perm {α κ : Type} [DecidableEq κ] {keys : List κ} (hkeys : keys.Nodup) (key : α → κ)
    {l : List α} (h : ∀ a ∈ l, key a ∈ keys) : (keys.flatMap fun k => l.filter (key · == k)).Perm l := by
  induction keys generalizing l with
  | nil =>
    cases l with
    | nil => exact .nil
    | cons a rest => cases h a List.mem_cons_self
  | cons k rest ih =>
    obtain ⟨hk, hrest⟩ := List.nodup_cons.1 hkeys
    rw [List.flatMap_cons]
    refine List.Perm.trans (List.Perm.append_left _ ?_) (List.filter_append_perm (key · == k) l)
    have hothers : ∀ a ∈ l.filter (fun a => !(key a == k)), key a ∈ rest := by
      intro a ha
      obtain ⟨hmem, hne⟩ := List.mem_filter.1 ha
      exact (List.mem_cons.1 (h a hmem)).resolve_left (by simpa using hne)
    refine List.Perm.trans (List.Perm.of_eq ?_) (ih hrest hothers)
    rw [List.flatMap_def, List.flatMap_def]
    refine congrArg List.flatten (List.map_congr_left fun k' hk' => ?_)
    rw [List.filter_filter]
    refine List.filter_congr fun a _ => ?_
    by_cases he : key a = k'
    · have hne : k' ≠ k := fun heq => hk (heq ▸ hk')
      simp [he, hne]
    · simp [he]

namespace Blueprint
variable {b : Blueprint} {m : Model}

/-- The node of a registration at a place. -/
def nodeAt (b : Blueprint) (i : Nat) (r : Registration) : Node :=
  .make ⟨i⟩ r.target r.calculation (b.inputsOf r) r.results

theorem getElem?_nodes (b : Blueprint) (i : Nat) : b.nodes[i]? = b.registrations[i]?.map (b.nodeAt i) := by
  unfold nodes
  rw [List.getElem?_map, List.getElem?_zipIdx, Nat.zero_add, Option.map_map]
  rfl

@[simp] theorem length_nodes (b : Blueprint) : b.nodes.length = b.registrations.length := by
  simp [nodes]

theorem mem_nodes {n : Node} :
    n ∈ b.nodes ↔ ∃ r, b.registrations[n.id.index]? = some r ∧ n = b.nodeAt n.id.index r := by
  rw [List.mem_iff_getElem?]
  simp only [getElem?_nodes, Option.map_eq_some_iff]
  constructor
  · rintro ⟨i, r, hr, rfl⟩
    exact ⟨r, hr, rfl⟩
  · rintro ⟨r, hr, hn⟩
    exact ⟨_, r, hr, hn.symm⟩

theorem nodup_ids (b : Blueprint) : (b.nodes.map (·.id)).Nodup := by
  have hids : b.nodes.map (·.id) = (b.registrations.zipIdx.map (·.2)).map NodeId.mk := by
    rw [nodes, List.map_map, List.map_map]
    rfl
  rw [hids, List.zipIdx_map_snd]
  exact List.Nodup.map (fun _ _ h => NodeId.mk.inj h) List.nodup_range'

theorem mem_targets {t : Target} : t ∈ b.targets ↔ ∃ r ∈ b.registrations, r.target = t := by
  rw [targets, mem_distinct, List.mem_map]

theorem target_mem_targets {n : Node} (h : n ∈ b.nodes) : n.target ∈ b.targets := by
  obtain ⟨r, hr, hn⟩ := mem_nodes.1 h
  rw [hn]
  exact mem_targets.2 ⟨r, List.mem_of_getElem? hr, rfl⟩

/-- The nodes of the graphs are those of the blueprint. -/
theorem flatMap_nodes_perm {graphs : List Graph} (h : b.targets.mapM (b.graphFor b.nodes) = .ok graphs) :
    (graphs.flatMap (·.nodes)).Perm b.nodes := by
  have hgraph : ∀ g ∈ graphs, g.nodes.Perm (b.nodes.filter (·.target == g.target)) := by
    intro g hg
    obtain ⟨t, -, ht⟩ := mem_of_mapM_ok h hg
    rw [target_of_graphFor ht]
    exact Graph.perm_of_ofNodes ht
  have htargets : graphs.map (·.target) = b.targets := map_of_mapM_ok (fun _ _ => target_of_graphFor) h
  refine (List.Perm.flatMap_left graphs hgraph).trans ?_
  have hgroup : (b.targets.flatMap fun t => b.nodes.filter (·.target == t)).Perm b.nodes :=
    flatMap_filter_perm (nodup_distinct _) Node.target fun _ hn => target_mem_targets hn
  rwa [← htargets, List.flatMap_map] at hgroup

/-- Every registration is in the model, at its place. -/
theorem nodes_of_build (h : b.build = .ok m) : m.nodes = b.nodes := by
  obtain ⟨hgraphs, hm⟩ := build_steps h
  obtain ⟨hcount, harena⟩ := Model.nodes_of_ofGraphs hm
  have hperm := flatMap_nodes_perm hgraphs
  rw [Model.total_nodes, hperm.length_eq] at hcount
  apply List.ext_getElem?
  intro i
  cases hi : b.nodes[i]? with
  | none =>
    rw [List.getElem?_eq_none_iff] at hi ⊢
    exact Nat.le_trans (Nat.le_of_eq hcount) hi
  | some n =>
    obtain ⟨g, hg, hn⟩ := List.mem_flatMap.1 (hperm.mem_iff.2 (List.mem_of_getElem? hi))
    have hplace := harena g hg n hn
    rw [getElem?_nodes] at hi
    obtain ⟨r, -, rfl⟩ := Option.map_eq_some_iff.1 hi
    exact hplace

/-- The graph of its target has the node. -/
theorem exists_graph (h : b.build = .ok m) {n : Node} (hn : n ∈ b.nodes) :
    ∃ g ∈ m.graphs, g.target = n.target ∧ n ∈ g.nodes := by
  obtain ⟨g, hg, hmem⟩ := List.mem_flatMap.1 ((flatMap_nodes_perm (build_steps h).1).mem_iff.2 hn)
  exact ⟨g, hg, (target_of_mem h hg hmem).symm, hmem⟩

end Blueprint

end CalcCycle
