import CalcCycle.Graph.Basic
import Mathlib.Data.List.Nodup

/-! The edges of a graph. An edge leads from a producer to a reader exactly when the reader has an
input that the producer is the first to declare, and no edge stands in the list twice. So the lists of
dependencies and dependents have no repetitions, however many inputs two nodes share. -/

namespace CalcCycle.Graph

theorem mem_addEdge {edges : List (NodeId × NodeId)} {e x : NodeId × NodeId} :
    x ∈ addEdge edges e ↔ x = e ∨ x ∈ edges := by
  unfold addEdge
  split_ifs with h
  · exact ⟨Or.inr, fun hx => hx.elim (fun he => he ▸ h) id⟩
  · exact List.mem_cons

theorem nodup_addEdge {edges : List (NodeId × NodeId)} (h : edges.Nodup) (e : NodeId × NodeId) :
    (addEdge edges e).Nodup := by
  unfold addEdge
  split_ifs with he
  · exact h
  · exact List.nodup_cons.2 ⟨he, h⟩

/-- Adding edges one by one: the order matters for the list only, not for its members. -/
theorem mem_foldl_addEdge {x : NodeId × NodeId} (consumer : NodeId) (producers : List NodeId)
    (edges : List (NodeId × NodeId)) :
    x ∈ producers.foldl (fun edges p => addEdge edges (p, consumer)) edges ↔
      x ∈ edges ∨ ∃ p ∈ producers, x = (p, consumer) := by
  induction producers generalizing edges with
  | nil => simp
  | cons p rest ih =>
    rw [List.foldl_cons, ih, mem_addEdge]
    simp only [List.mem_cons, exists_eq_or_imp, or_left_comm, or_assoc]

theorem nodup_foldl_addEdge (consumer : NodeId) (producers : List NodeId)
    {edges : List (NodeId × NodeId)} (h : edges.Nodup) :
    (producers.foldl (fun edges p => addEdge edges (p, consumer)) edges).Nodup := by
  induction producers generalizing edges with
  | nil => exact h
  | cons p rest ih => exact ih (nodup_addEdge h _)

theorem mem_edgesInto {nodes : List Node} {edges : List (NodeId × NodeId)} {n : Node}
    {p c : NodeId} :
    (p, c) ∈ edgesInto nodes edges n ↔
      (p, c) ∈ edges ∨ (n.id = c ∧ ∃ s ∈ n.inputs, producerAmong nodes s = some p) := by
  unfold edgesInto
  rw [mem_foldl_addEdge]
  refine or_congr_right ⟨?_, ?_⟩
  · rintro ⟨q, hq, he⟩
    obtain ⟨rfl, rfl⟩ := Prod.mk.inj he
    obtain ⟨s, hs, hp⟩ := List.mem_filterMap.1 hq
    exact ⟨rfl, s, hs, hp⟩
  · rintro ⟨rfl, s, hs, hp⟩
    exact ⟨p, List.mem_filterMap.2 ⟨s, hs, hp⟩, rfl⟩

theorem mem_foldl_edgesInto {nodes : List Node} {p c : NodeId} (consumers : List Node)
    (edges : List (NodeId × NodeId)) :
    (p, c) ∈ consumers.foldl (edgesInto nodes) edges ↔
      (p, c) ∈ edges ∨
        ∃ n ∈ consumers, n.id = c ∧ ∃ s ∈ n.inputs, producerAmong nodes s = some p := by
  induction consumers generalizing edges with
  | nil => simp
  | cons n rest ih =>
    rw [List.foldl_cons, ih, mem_edgesInto]
    simp only [List.mem_cons, exists_eq_or_imp, or_assoc]

theorem mem_edgesAmong {nodes : List Node} {p c : NodeId} :
    (p, c) ∈ edgesAmong nodes ↔
      ∃ n ∈ nodes, n.id = c ∧ ∃ s ∈ n.inputs, producerAmong nodes s = some p := by
  unfold edgesAmong
  rw [mem_foldl_edgesInto]
  simp

theorem nodup_foldl_edgesInto {nodes : List Node} (consumers : List Node)
    {edges : List (NodeId × NodeId)} (h : edges.Nodup) :
    (consumers.foldl (edgesInto nodes) edges).Nodup := by
  induction consumers generalizing edges with
  | nil => exact h
  | cons n rest ih => exact ih (nodup_foldl_addEdge _ _ h)

theorem nodup_edgesAmong (nodes : List Node) : (edgesAmong nodes).Nodup :=
  nodup_foldl_edgesInto nodes List.nodup_nil

theorem mem_sourcesOf {edges : List (NodeId × NodeId)} {p c : NodeId} :
    p ∈ sourcesOf edges c ↔ (p, c) ∈ edges := by
  simp [sourcesOf]

theorem mem_targetsOf {edges : List (NodeId × NodeId)} {p c : NodeId} :
    c ∈ targetsOf edges p ↔ (p, c) ∈ edges := by
  simp [targetsOf]

theorem nodup_sourcesOf {edges : List (NodeId × NodeId)} (h : edges.Nodup) (id : NodeId) :
    (sourcesOf edges id).Nodup := by
  refine List.Nodup.map_on ?_ (h.filter _)
  intro x hx y hy hxy
  simp only [List.mem_filter, beq_iff_eq] at hx hy
  exact Prod.ext hxy (hx.2.trans hy.2.symm)

theorem nodup_targetsOf {edges : List (NodeId × NodeId)} (h : edges.Nodup) (id : NodeId) :
    (targetsOf edges id).Nodup := by
  refine List.Nodup.map_on ?_ (h.filter _)
  intro x hx y hy hxy
  simp only [List.mem_filter, beq_iff_eq] at hx hy
  exact Prod.ext (hx.2.trans hy.2.symm) hxy

end CalcCycle.Graph
