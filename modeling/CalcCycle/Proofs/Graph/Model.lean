import CalcCycle.Graph.Model
import CalcCycle.Proofs.Graph.WellFormed

/-! What an accepted model is: its graphs share neither node ids nor values, its node ids are below the
number of its nodes, and its schedule has every graph once. -/

namespace CalcCycle

/-- The graphs share neither node ids nor produced values. -/
def Graph.Separate (a b : Graph) : Prop := ∀ x ∈ a.nodes, ∀ y ∈ b.nodes, x.id ≠ y.id ∧ x.Apart y

theorem Graph.Separate.symm {a b : Graph} (h : a.Separate b) : b.Separate a :=
  fun y hy x hx => ⟨(h x hx y hy).1.symm, (h x hx y hy).2.symm⟩

instance : Std.Symm Graph.Separate := ⟨fun _ _ h => h.symm⟩

theorem Graph.mem_outputs {g : Graph} {spec : Specification} :
    spec ∈ g.outputs ↔ ∃ n ∈ g.nodes, spec ∈ n.outputs := by
  simp [Graph.outputs]

namespace Model

structure WellFormed (m : Model) : Prop where
  separate : m.graphs.Pairwise Graph.Separate
  bound : ∀ g ∈ m.graphs, ∀ n ∈ g.nodes, n.id.index < m.nodeCount

/-- Graphs of a model that have a node in common are one. -/
theorem WellFormed.graph_unique {m : Model} (h : m.WellFormed) {x y : Graph} (hx : x ∈ m.graphs)
    (hy : y ∈ m.graphs) {n : Node} (hnx : n ∈ x.nodes) (hny : n ∈ y.nodes) : x = y := by
  by_contra hne
  exact (h.separate.forall hx hy hne n hnx n hny).1 rfl

/-! ### Filling slots -/

/-- The nodes have been put into slots that were free. -/
structure Placed (slots slots' : List (Option Node)) (nodes : List Node) : Prop where
  length : slots'.length = slots.length
  free : ∀ n ∈ nodes, slots[n.id.index]? = some none
  kept : ∀ (i : Nat) (m : Node), slots[i]? = some (some m) → slots'[i]? = some (some m)
  filled : ∀ n ∈ nodes, slots'[n.id.index]? = some (some n)
  count : slots'.countP Option.isSome = slots.countP Option.isSome + nodes.length

theorem Placed.nil (slots : List (Option Node)) : Placed slots slots [] :=
  ⟨rfl, by simp, fun _ _ h => h, by simp, rfl⟩

theorem Placed.append {a b c : List (Option Node)} {xs ys : List Node} (h1 : Placed a b xs)
    (h2 : Placed b c ys) : Placed a c (xs ++ ys) := by
  refine ⟨h2.length.trans h1.length, ?_, fun i m h => h2.kept i m (h1.kept i m h),
    ?_, ?_⟩
  · intro n hn
    rcases List.mem_append.1 hn with hn | hn
    · exact h1.free n hn
    · have hb := h2.free n hn
      cases ha : a[n.id.index]? with
      | none =>
        rw [List.getElem?_eq_none_iff, ← h1.length, ← List.getElem?_eq_none_iff, hb] at ha
        cases ha
      | some slot =>
        cases slot with
        | none => rfl
        | some m =>
          rw [h1.kept _ m ha] at hb
          cases hb
  · intro n hn
    rcases List.mem_append.1 hn with hn | hn
    · exact h2.kept _ n (h1.filled n hn)
    · exact h2.filled n hn
  · rw [h2.count, h1.count, List.length_append, Nat.add_assoc]

theorem placeNode_ok {slots slots' : List (Option Node)} {n : Node}
    (h : placeNode slots n = .ok slots') : Placed slots slots' [n] := by
  unfold placeNode at h
  split at h
  · cases h
  · cases h
  · next hfree =>
    cases h
    obtain ⟨hlt, hnone⟩ := List.getElem?_eq_some_iff.1 hfree
    refine ⟨List.length_set, ?_, ?_, ?_, ?_⟩
    · simpa using hfree
    · intro i m hi
      have hne : n.id.index ≠ i := by
        rintro rfl
        rw [hfree] at hi
        cases hi
      rw [List.getElem?_set_ne hne, hi]
    · simpa using List.getElem?_set_self hlt
    · rw [List.countP_set hlt, hnone]
      simp

theorem placeNodes_ok {nodes : List Node} {slots slots' : List (Option Node)}
    (h : nodes.foldlM placeNode slots = .ok slots') : Placed slots slots' nodes := by
  induction nodes generalizing slots with
  | nil =>
    cases h
    exact .nil _
  | cons n rest ih =>
    rw [List.foldlM_cons] at h
    cases hn : placeNode slots n with
    | error e => rw [hn] at h; cases h
    | ok next =>
      rw [hn] at h
      exact (placeNode_ok hn).append (ih h)

theorem placeGraph_ok {f f' : Filling} {g : Graph} (h : placeGraph f g = .ok f') :
    Placed f.slots f'.slots g.nodes ∧ (∀ spec ∈ g.outputs, spec ∉ f.produced) ∧
      f'.produced = g.outputs ++ f.produced := by
  unfold placeGraph at h
  cases hn : g.nodes.foldlM placeNode f.slots with
  | error e => rw [hn] at h; cases h
  | ok slots =>
    rw [hn] at h
    simp only [bind, Except.bind] at h
    split at h
    · cases h
    · next hf =>
      cases h
      simp only [List.find?_eq_none, decide_eq_true_eq] at hf
      exact ⟨placeNodes_ok hn, hf, rfl⟩

theorem placeGraphs_ok {graphs : List Graph} {f f' : Filling} (h : graphs.foldlM placeGraph f = .ok f') :
    Placed f.slots f'.slots (graphs.flatMap (·.nodes)) ∧
      (∀ g ∈ graphs, ∀ spec ∈ g.outputs, spec ∉ f.produced) ∧ graphs.Pairwise Graph.Separate := by
  induction graphs generalizing f with
  | nil =>
    cases h
    exact ⟨.nil _, by simp, .nil⟩
  | cons g rest ih =>
    rw [List.foldlM_cons] at h
    cases hg : placeGraph f g with
    | error e => rw [hg] at h; cases h
    | ok next =>
      rw [hg] at h
      obtain ⟨hplaced, hnew, hproduced⟩ := placeGraph_ok hg
      obtain ⟨hrest, hfresh, hseparate⟩ := ih h
      rw [hproduced] at hfresh
      refine ⟨hplaced.append hrest, ?_, List.pairwise_cons.2 ⟨?_, hseparate⟩⟩
      · intro a ha spec hspec
        rcases List.mem_cons.1 ha with rfl | ha
        · exact hnew spec hspec
        · exact fun hmem => hfresh a ha spec hspec (List.mem_append_right _ hmem)
      · intro b hb x hx y hy
        constructor
        · intro hid
          have hfree := hrest.free y (List.mem_flatMap.2 ⟨b, hb, hy⟩)
          rw [← hid, hplaced.filled x hx] at hfree
          cases hfree
        · intro spec hx' hy'
          refine hfresh b hb spec (Graph.mem_outputs.2 ⟨y, hy, hy'⟩) (List.mem_append_left _ ?_)
          exact Graph.mem_outputs.2 ⟨x, hx, hx'⟩

theorem total_nodes (graphs : List Graph) :
    total (·.nodes.length) graphs = (graphs.flatMap (·.nodes)).length := by
  induction graphs with
  | nil => rfl
  | cons g rest ih => rw [total, ih, List.flatMap_cons, List.length_append]

/-- A model whose graphs fill all slots has one slot for each node. -/
theorem ofGraphs_ok {graphs : List Graph} {m : Model} (h : ofGraphs graphs = .ok m) :
    m.graphs = graphs ∧ m.WellFormed := by
  unfold ofGraphs at h
  simp only at h
  cases hf : graphs.foldlM placeGraph
      { slots := List.replicate (total (·.nodes.length) graphs) none } with
  | error e => rw [hf] at h; cases h
  | ok filling =>
    rw [hf] at h
    cases h
    obtain ⟨hplaced, -, hseparate⟩ := placeGraphs_ok hf
    refine ⟨rfl, hseparate, ?_⟩
    intro g hg n hn
    have hcount : nodeCount { graphs, nodes := filling.slots.filterMap id } =
        total (·.nodes.length) graphs := by
      rw [nodeCount, List.length_filterMap_eq_countP]
      refine hplaced.count.trans ?_
      rw [List.countP_replicate, total_nodes]
      simp
    have hfree := hplaced.free n (List.mem_flatMap.2 ⟨g, hg, hn⟩)
    obtain ⟨hlt, -⟩ := List.getElem?_eq_some_iff.1 hfree
    rw [hcount]
    simpa using hlt

/-! ### The schedule -/

theorem partition_cons (g : Graph) (rest nodes) (k : TargetKind) :
    partition ⟨g :: rest, nodes⟩ k =
      if g.target.kind = k then g :: partition ⟨rest, nodes⟩ k else partition ⟨rest, nodes⟩ k := by
  unfold partition
  rw [List.filter_cons]
  simp only [beq_iff_eq]

/-- Kind by kind, every graph comes once. -/
theorem schedule_perm (m : Model) : m.schedule.Perm m.graphs := by
  obtain ⟨graphs, nodes⟩ := m
  induction graphs with
  | nil => exact List.Perm.refl _
  | cons g rest ih =>
    unfold schedule TargetKind.executionOrder at ih ⊢
    simp only [List.flatMap_cons, List.flatMap_nil, List.append_nil, partition_cons] at ih ⊢
    refine List.Perm.trans ?_ (ih.cons g)
    have hmiddle : ∀ front back : List Graph, (front ++ g :: back).Perm (g :: (front ++ back)) :=
      fun _ _ => List.perm_middle
    set a := partition ⟨rest, nodes⟩ .primitive
    set b := partition ⟨rest, nodes⟩ .security
    set c := partition ⟨rest, nodes⟩ .position
    set d := partition ⟨rest, nodes⟩ .multiplePositions
    cases g.target.kind with
    | primitive => simp
    | security => simp [hmiddle]
    | position => simpa using hmiddle (a ++ b) (c ++ d)
    | multiplePositions => simpa using hmiddle (a ++ (b ++ c)) d

theorem mem_schedule {m : Model} {g : Graph} : g ∈ m.schedule ↔ g ∈ m.graphs :=
  m.schedule_perm.mem_iff

theorem accepted_schedule {graphs : List Graph} {m : Model} (hm : ofGraphs graphs = .ok m)
    (hgs : ∀ g ∈ graphs, g.Accepted) : ∀ g ∈ m.schedule, g.Accepted := by
  obtain ⟨rfl, -⟩ := ofGraphs_ok hm
  exact fun g hg => hgs g (mem_schedule.1 hg)

theorem WellFormed.separate_schedule {m : Model} (h : m.WellFormed) :
    m.schedule.Pairwise Graph.Separate :=
  (m.schedule_perm.pairwise_iff fun hab => hab.symm).2 h.separate

end Model

end CalcCycle
