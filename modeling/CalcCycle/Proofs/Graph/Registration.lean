import CalcCycle.Proofs.Graph.Blueprint

/-! The graphs of a built model stand in the order in which their targets were registered first, and
within one kind of target the schedule keeps that order. -/

namespace CalcCycle.Blueprint
variable {b : Blueprint} {m : Model}

/-- The place of a target among those that are registered. -/
def place (b : Blueprint) (t : Target) : Nat := b.targets.idxOf t

theorem map_of_mapM_ok {α β ε : Type} {f : α → Except ε β} {label : β → α}
    (hf : ∀ a x, f a = .ok x → label x = a) {as : List α} {bs : List β} (h : as.mapM f = .ok bs) :
    bs.map label = as := by
  induction as generalizing bs with
  | nil =>
    cases h
    rfl
  | cons a rest ih =>
    rw [List.mapM_cons] at h
    cases ha : f a with
    | error e => rw [ha] at h; cases h
    | ok x =>
      rw [ha] at h
      cases hrest : rest.mapM f with
      | error e => rw [hrest] at h; cases h
      | ok xs =>
        rw [hrest] at h
        cases h
        rw [List.map_cons, hf a x ha, ih hrest]

theorem target_of_graphFor {nodes : List Node} {t : Target} {g : Graph} (h : b.graphFor nodes t = .ok g) :
    g.target = t := by
  obtain ⟨-, -, rfl⟩ := Graph.ofNodes_ok h
  rfl

/-- A built model has one graph for each target, in the order of registration. -/
theorem map_target_of_build (h : b.build = .ok m) : m.graphs.map (·.target) = b.targets :=
  map_of_mapM_ok (fun _ _ => target_of_graphFor) (graphs_of_build h).1

theorem target_of_mem (h : b.build = .ok m) {g : Graph} (hg : g ∈ m.graphs) {n : Node} (hn : n ∈ g.nodes) :
    n.target = g.target := by
  obtain ⟨t, ht⟩ := (build_ok h).1 g hg
  have htarget := (List.mem_filter.1 (Graph.mem_of_ofNodes ht hn)).2
  rw [target_of_graphFor ht]
  exact beq_iff_eq.1 htarget

theorem pairwise_idxOf {α : Type} [DecidableEq α] {l : List α} (h : l.Nodup) :
    l.Pairwise fun x y => l.idxOf x < l.idxOf y := by
  rw [List.pairwise_iff_getElem]
  intro i j hi hj hlt
  rwa [h.idxOf_getElem, h.idxOf_getElem]

theorem graphs_registered (h : b.build = .ok m) :
    m.graphs.Pairwise fun x y => b.place x.target < b.place y.target := by
  have hplaces : b.targets.Pairwise fun s t => b.place s < b.place t := pairwise_idxOf (nodup_distinct _)
  rwa [← map_target_of_build h, List.pairwise_map] at hplaces

/-- Of two graphs for targets of one kind, the one that was registered earlier is run earlier. -/
theorem schedule_registered (h : b.build = .ok m) :
    m.schedule.Pairwise fun x y => x.target.kind = y.target.kind → b.place x.target < b.place y.target := by
  have hkind : ∀ {k x}, x ∈ m.partition k → x.target.kind = k := fun hx =>
    beq_iff_eq.1 (List.mem_filter.1 hx).2
  unfold Model.schedule
  rw [List.pairwise_flatMap]
  constructor
  · intro k _
    have hpartition : (m.partition k).Pairwise fun x y => b.place x.target < b.place y.target :=
      (graphs_registered h).filter _
    exact hpartition.imp fun {x y} (hlt : b.place x.target < b.place y.target) _ => hlt
  · have hdistinct : TargetKind.executionOrder.Pairwise (· ≠ ·) := by decide
    apply hdistinct.imp
    intro k k' hne x hx y hy he
    exact absurd ((hkind hx).symm.trans (he.trans (hkind hy))) hne

end CalcCycle.Blueprint
