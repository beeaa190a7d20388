import CalcCycle.Proofs.Graph.Edges
import CalcCycle.Proofs.Graph.Walk
import Mathlib.Data.List.Pairwise

/-! What an accepted graph is: its nodes have ids of their own and outputs of their own, an edge into a
node comes from each producer of an input, and every producer stands before its readers. -/

namespace CalcCycle

@[simp] theorem Node.produces_iff {n : Node} {s : Specification} :
    n.produces s = true ↔ s ∈ n.outputs := by
  simp [Node.produces]

/-- No value is produced by both nodes. -/
def Node.Apart (a b : Node) : Prop := ∀ s ∈ a.outputs, s ∉ b.outputs

theorem Node.Apart.symm {a b : Node} (h : a.Apart b) : b.Apart a := fun s hb ha => h s ha hb

instance : Std.Symm Node.Apart := ⟨fun _ _ => Node.Apart.symm⟩

/-- Nothing that the later node does concerns the earlier one. -/
structure Node.Before (a b : Node) : Prop where
  id : a.id ≠ b.id
  apart : a.Apart b
  inputs : ∀ spec ∈ a.inputs, spec ∉ b.outputs

namespace Graph

/-- The graph is one that a construction from nodes has accepted. -/
def Accepted (g : Graph) : Prop := ∃ target nodes liveData, ofNodes target nodes liveData = .ok g

structure WellFormed (g : Graph) : Prop where
  ids : (g.nodes.map (·.id)).Nodup
  apart : g.nodes.Pairwise Node.Apart
  edges : g.edges.Nodup
  /-- The edges into a node of the graph come from the producers of its inputs. -/
  mem_edges : ∀ b ∈ g.nodes, ∀ p, (p, b.id) ∈ g.edges ↔ ∃ a ∈ g.nodes, a.id = p ∧ ∃ s ∈ b.inputs, s ∈ a.outputs
  /-- An edge leads to a node from a node before it. -/
  forward : ∀ front b back, g.nodes = front ++ b :: back → ∀ p, (p, b.id) ∈ g.edges → ∃ a ∈ front, a.id = p

/-! ### Checks -/

theorem validate_ok {target : Target} {nodes : List Node} {ids : List NodeId}
    {produced : List Specification} (h : validate target ids produced nodes = .ok ()) :
    (∀ n ∈ nodes, n.target = target ∧ n.id ∉ ids ∧ ∀ s ∈ n.outputs, s ∉ produced) ∧
      (nodes.map (·.id)).Nodup ∧ nodes.Pairwise Node.Apart := by
  induction nodes generalizing ids produced with
  | nil => simp
  | cons n rest ih =>
    rw [validate] at h
    split_ifs at h with ht hi
    split at h
    · cases h
    next hf =>
    simp only [List.find?_eq_none, decide_eq_true_eq] at hf
    obtain ⟨hrest, hids, hapart⟩ := ih h
    refine ⟨?_, ?_, ?_⟩
    · intro m hm
      rcases List.mem_cons.1 hm with rfl | hm
      · exact ⟨not_not.1 ht, hi, hf⟩
      · obtain ⟨h1, h2, h3⟩ := hrest m hm
        exact ⟨h1, fun hid => h2 (List.mem_cons_of_mem _ hid),
          fun s hs hp => h3 s hs (List.mem_append_right _ hp)⟩
    · refine List.nodup_cons.2 ⟨?_, hids⟩
      intro hmem
      obtain ⟨m, hm, he⟩ := List.mem_map.1 hmem
      exact (hrest m hm).2.1 (he ▸ List.mem_cons_self)
    · exact List.pairwise_cons.2
        ⟨fun m hm s hn hs => (hrest m hm).2.2 s hs (List.mem_append_left _ hn), hapart⟩

/-! ### Look-ups by id and by output -/

theorem eq_of_id_eq {nodes : List Node} (h : (nodes.map (·.id)).Nodup) {a b : Node} (ha : a ∈ nodes)
    (hb : b ∈ nodes) (hid : a.id = b.id) : a = b :=
  List.inj_on_of_nodup_map h ha hb hid

theorem find?_id {nodes : List Node} (h : (nodes.map (·.id)).Nodup) {n : Node} (hn : n ∈ nodes) :
    nodes.find? (·.id == n.id) = some n := by
  cases hf : nodes.find? (·.id == n.id) with
  | none => exact absurd (List.find?_eq_none.1 hf n hn) (by simp)
  | some m =>
    have hid : m.id = n.id := by simpa using List.find?_some hf
    rw [eq_of_id_eq h (List.mem_of_find?_eq_some hf) hn hid]

theorem producerAmong_eq_some_iff {nodes : List Node} (h : nodes.Pairwise Node.Apart)
    {s : Specification} {p : NodeId} :
    producerAmong nodes s = some p ↔ ∃ a ∈ nodes, a.id = p ∧ s ∈ a.outputs := by
  unfold producerAmong
  simp only [Option.map_eq_some_iff]
  constructor
  · rintro ⟨a, ha, rfl⟩
    exact ⟨a, List.mem_of_find?_eq_some ha, rfl,
      Node.produces_iff.1 (List.find?_some (p := fun n : Node => n.produces s) ha)⟩
  · rintro ⟨a, ha, rfl, hs⟩
    cases hf : nodes.find? (·.produces s) with
    | none => exact absurd (Node.produces_iff.2 hs) (by simpa using List.find?_eq_none.1 hf a ha)
    | some b =>
      -- two producers of one value are the same node
      have hb := Node.produces_iff.1 (List.find?_some (p := fun n : Node => n.produces s) hf)
      have heq : b = a := by
        by_contra hne
        exact h.forall (List.mem_of_find?_eq_some hf) ha hne s hb hs
      exact ⟨b, rfl, by rw [heq]⟩

/-! ### The order of the nodes -/

/-- The nodes named by ids in a given order. -/
def inOrder (nodes : List Node) (ids : List NodeId) : List Node :=
  ids.filterMap fun id => nodes.find? (·.id == id)

theorem mem_of_mem_inOrder {nodes : List Node} {ids : List NodeId} {n : Node}
    (h : n ∈ inOrder nodes ids) : n ∈ nodes := by
  obtain ⟨id, _, hf⟩ := List.mem_filterMap.1 h
  exact List.mem_of_find?_eq_some hf

theorem mem_inOrder {nodes : List Node} (h : (nodes.map (·.id)).Nodup) {ids : List NodeId} {n : Node} :
    n ∈ inOrder nodes ids ↔ n ∈ nodes ∧ n.id ∈ ids := by
  unfold inOrder
  rw [List.mem_filterMap]
  constructor
  · rintro ⟨id, hid, hf⟩
    have he : n.id = id := by simpa using List.find?_some hf
    exact ⟨List.mem_of_find?_eq_some hf, he ▸ hid⟩
  · rintro ⟨hn, hid⟩
    exact ⟨n.id, hid, find?_id h hn⟩

theorem ids_inOrder_sublist (nodes : List Node) (ids : List NodeId) :
    ((inOrder nodes ids).map (·.id)).Sublist ids := by
  induction ids with
  | nil => exact List.Sublist.refl _
  | cons id rest ih =>
    unfold inOrder at ih ⊢
    rw [List.filterMap_cons]
    cases hf : nodes.find? (·.id == id) with
    | none => exact ih.cons _
    | some n =>
      have hid : n.id = id := by simpa using List.find?_some hf
      simpa [hid] using ih

theorem forward_inOrder {nodes : List Node} (hids : (nodes.map (·.id)).Nodup) {ids : List NodeId}
    (hnodup : ids.Nodup) {edges : List (NodeId × NodeId)} (hf : DepthFirst.isForward ids edges = true)
    {front back : List Node} {b : Node} (hsplit : inOrder nodes ids = front ++ b :: back) {p : NodeId}
    (hp : (p, b.id) ∈ edges) (ha : ∃ a ∈ nodes, a.id = p) : ∃ a ∈ front, a.id = p := by
  obtain ⟨a, hmem, rfl⟩ := ha
  have hlt : ids.idxOf a.id < ids.idxOf b.id := by
    simpa using List.all_eq_true.1 hf _ hp
  -- the ids before the one of `b` give the nodes of `front`
  obtain ⟨before, after, rfl, hfront, hrest⟩ := List.filterMap_eq_append_iff.1 hsplit
  obtain ⟨skipped, id, tail, rfl, hskip, hb, -⟩ := List.filterMap_eq_cons_iff.1 hrest
  have hid : b.id = id := by simpa using List.find?_some hb
  have hbefore : a.id ∈ before ++ skipped := by
    by_contra hnot
    have h1 : (before ++ skipped ++ id :: tail).idxOf id = (before ++ skipped).length := by
      rw [List.idxOf_append_of_notMem, List.idxOf_cons_self, Nat.add_zero]
      intro hin
      rw [← List.append_assoc] at hnodup
      exact (List.nodup_append.1 hnodup).2.2 _ hin _ List.mem_cons_self rfl
    rw [hid, ← List.append_assoc, h1, List.idxOf_append_of_notMem hnot] at hlt
    omega
  rcases List.mem_append.1 hbefore with h | h
  · exact ⟨a, hfront ▸ List.mem_filterMap.2 ⟨a.id, h, find?_id hids hmem⟩, rfl⟩
  · exact absurd (hskip a.id h) (by simp [find?_id hids hmem])

/-! ### Accepted graphs -/

theorem ofNodes_ok {target : Target} {nodes : List Node} {liveData : List Requirement} {g : Graph}
    (h : ofNodes target nodes liveData = .ok g) :
    validate target [] [] nodes = .ok () ∧
      DepthFirst.isForward (DepthFirst.order (nodes.map (·.id)) (targetsOf (edgesAmong nodes)))
        (edgesAmong nodes) = true ∧
      g = { target
            nodes := inOrder nodes (DepthFirst.order (nodes.map (·.id)) (targetsOf (edgesAmong nodes)))
            edges := edgesAmong nodes
            liveData := .ofList liveData } := by
  unfold ofNodes at h
  cases hv : validate target [] [] nodes with
  | error e => rw [hv] at h; cases h
  | ok u =>
    rw [hv] at h
    simp only [bind, Except.bind] at h
    split_ifs at h with hf
    exact ⟨rfl, hf, by cases h; rfl⟩

theorem mem_of_ofNodes {target : Target} {nodes : List Node} {liveData : List Requirement} {g : Graph}
    (h : ofNodes target nodes liveData = .ok g) {n : Node} (hn : n ∈ g.nodes) : n ∈ nodes := by
  obtain ⟨-, -, rfl⟩ := ofNodes_ok h
  exact mem_of_mem_inOrder hn

/-- Ordering loses no node. -/
theorem perm_of_ofNodes {target : Target} {nodes : List Node} {liveData : List Requirement} {g : Graph}
    (h : ofNodes target nodes liveData = .ok g) : g.nodes.Perm nodes := by
  obtain ⟨hv, -, rfl⟩ := ofNodes_ok h
  obtain ⟨-, hids, -⟩ := validate_ok hv
  have hordered := (DepthFirst.nodup_order (nodes.map (·.id)) (targetsOf (edgesAmong nodes))).sublist
    (ids_inOrder_sublist nodes _)
  apply (List.perm_ext_iff_of_nodup hordered.of_map hids.of_map).2
  intro n
  rw [mem_inOrder hids]
  exact and_iff_left_of_imp fun hn => DepthFirst.mem_order _ (List.mem_map_of_mem hn)

theorem wellFormed_of_ofNodes {target : Target} {nodes : List Node} {liveData : List Requirement}
    {g : Graph} (h : ofNodes target nodes liveData = .ok g) : g.WellFormed := by
  obtain ⟨hv, hf, rfl⟩ := ofNodes_ok h
  obtain ⟨-, hids, hapart⟩ := validate_ok hv
  have hnodup := DepthFirst.nodup_order (nodes.map (·.id)) (targetsOf (edgesAmong nodes))
  set ids := DepthFirst.order (nodes.map (·.id)) (targetsOf (edgesAmong nodes)) with hset
  have hsub := ids_inOrder_sublist nodes ids
  have hordered : ((inOrder nodes ids).map (·.id)).Nodup := hnodup.sublist hsub
  have hforward : ∀ front b back, inOrder nodes ids = front ++ b :: back →
      ∀ p, (p, b.id) ∈ edgesAmong nodes → ∃ a ∈ front, a.id = p := by
    intro front b back hsplit p hp
    refine forward_inOrder hids hnodup hf hsplit hp ?_
    obtain ⟨_, _, _, s, _, hprod⟩ := mem_edgesAmong.1 hp
    obtain ⟨a, ha, hap, _⟩ := (producerAmong_eq_some_iff hapart).1 hprod
    exact ⟨a, ha, hap⟩
  refine ⟨hordered, ?_, nodup_edgesAmong nodes, ?_, hforward⟩
  · -- distinct nodes of the ordered list are distinct nodes of the given one
    have hne : (inOrder nodes ids).Pairwise fun a b => a.id ≠ b.id := List.pairwise_map.1 hordered
    refine hne.imp_of_mem fun {a b} ha hb hab => ?_
    exact hapart.forall (mem_of_mem_inOrder ha) (mem_of_mem_inOrder hb)
      fun he => hab (he ▸ rfl)
  · intro b hb p
    constructor
    · intro hp
      obtain ⟨n, hn, hid, s, hs, hprod⟩ := mem_edgesAmong.1 hp
      obtain rfl := eq_of_id_eq hids hn (mem_of_mem_inOrder hb) hid
      obtain ⟨a, ha, hap, hout⟩ := (producerAmong_eq_some_iff hapart).1 hprod
      obtain ⟨front, back, hsplit⟩ := List.append_of_mem hb
      obtain ⟨a', ha', hap'⟩ := hforward front n back hsplit p hp
      have hmem : a' ∈ inOrder nodes ids := by
        rw [show inOrder nodes ids = front ++ n :: back from hsplit]
        exact List.mem_append_left _ ha'
      obtain rfl := eq_of_id_eq hids (mem_of_mem_inOrder hmem) ha (hap'.trans hap.symm)
      exact ⟨a', hmem, hap', s, hs, hout⟩
    · rintro ⟨a, ha, hap, s, hs, hout⟩
      exact mem_edgesAmong.2 ⟨b, mem_of_mem_inOrder hb, rfl, s, hs,
        (producerAmong_eq_some_iff hapart).2 ⟨a, mem_of_mem_inOrder ha, hap, hout⟩⟩

theorem Accepted.wellFormed {g : Graph} (h : g.Accepted) : g.WellFormed := by
  obtain ⟨_, _, _, h⟩ := h
  exact wellFormed_of_ofNodes h

/-! ### Neighbours -/

namespace WellFormed
variable {g : Graph}

theorem mem_dependencies (hg : g.WellFormed) {b : Node} (hb : b ∈ g.nodes) {p : NodeId} :
    p ∈ g.dependencies b.id ↔ ∃ a ∈ g.nodes, a.id = p ∧ ∃ s ∈ b.inputs, s ∈ a.outputs :=
  mem_sourcesOf.trans (hg.mem_edges b hb p)

theorem nodup_dependencies (hg : g.WellFormed) (id : NodeId) : (g.dependencies id).Nodup :=
  nodup_sourcesOf hg.edges id

theorem nodup_dependents (hg : g.WellFormed) (id : NodeId) : (g.dependents id).Nodup :=
  nodup_targetsOf hg.edges id

/-- The producer of an input is not the node itself. -/
theorem not_mem_own_outputs (hg : g.WellFormed) {n : Node} (hn : n ∈ g.nodes) {s : Specification}
    (hs : s ∈ n.inputs) : s ∉ n.outputs := by
  intro hout
  obtain ⟨front, back, hsplit⟩ := List.append_of_mem hn
  have hedge := (hg.mem_edges n hn n.id).2 ⟨n, hn, rfl, s, hs, hout⟩
  obtain ⟨a, ha, hid⟩ := hg.forward front n back hsplit n.id hedge
  have hids := hg.ids
  rw [hsplit, List.map_append, List.map_cons] at hids
  exact (List.nodup_append.1 hids).2.2 _ (List.mem_map_of_mem ha) _ List.mem_cons_self hid

/-- Of two nodes that produce one value none is another than the other. -/
theorem eq_of_mem_outputs (hg : g.WellFormed) {a b : Node} (ha : a ∈ g.nodes) (hb : b ∈ g.nodes)
    {s : Specification} (hsa : s ∈ a.outputs) (hsb : s ∈ b.outputs) : a = b := by
  by_contra hne
  exact hg.apart.forall ha hb hne s hsa hsb

theorem pairwise_of_split {α : Type} {R : α → α → Prop} {l : List α}
    (h : ∀ front b back, l = front ++ b :: back → ∀ c ∈ back, R b c) : l.Pairwise R := by
  induction l with
  | nil => exact .nil
  | cons a rest ih =>
    refine List.pairwise_cons.2 ⟨h [] a rest rfl, ih ?_⟩
    intro front b back hsplit
    exact h (a :: front) b back (by rw [hsplit, List.cons_append])

theorem before (hg : g.WellFormed) : g.nodes.Pairwise Node.Before := by
  apply pairwise_of_split
  intro front b back hsplit c hc
  have hids := hg.ids
  have hapart := hg.apart
  rw [hsplit] at hids hapart
  rw [List.map_append, List.map_cons, List.nodup_append] at hids
  have hid : b.id ≠ c.id := fun he =>
    (List.nodup_cons.1 hids.2.1).1 (he ▸ List.mem_map_of_mem hc)
  refine ⟨hid, (List.pairwise_cons.1 (List.pairwise_append.1 hapart).2.1).1 c hc, ?_⟩
  intro spec hin hout
  have hb : b ∈ g.nodes := by rw [hsplit]; simp
  have hc' : c ∈ g.nodes := by rw [hsplit]; simp [hc]
  have hedge := (hg.mem_edges b hb c.id).2 ⟨c, hc', rfl, spec, hin, hout⟩
  obtain ⟨a, ha, he⟩ := hg.forward front b back hsplit c.id hedge
  exact hids.2.2 a.id (List.mem_map_of_mem ha) c.id (List.mem_cons_of_mem _ (List.mem_map_of_mem hc)) he

end WellFormed

theorem mem_dependents {g : Graph} {p c : NodeId} : c ∈ g.dependents p ↔ p ∈ g.dependencies c :=
  mem_targetsOf.trans mem_sourcesOf.symm

end Graph

end CalcCycle
