import CalcCycle.Graph.Blueprint
import CalcCycle.Proofs.Graph.Model
import CalcCycle.Proofs.Sorted

/-! What a built model takes from its blueprint. A requirement is met by live data only where no
declared output satisfies it, so the values seeded for the live data of a model are none that a node of
the model produces. -/

namespace CalcCycle

namespace Model

theorem mem_liveData {m : Model} {d : Requirement} :
    d ∈ m.liveData ↔ ∃ g ∈ m.graphs, d ∈ g.liveData := by
  have hfold : ∀ (graphs : List Graph) (s : SortedSet Requirement),
      d ∈ graphs.foldl (fun s g => s.insertAll g.liveData.elements) s ↔
        d ∈ s ∨ ∃ g ∈ graphs, d ∈ g.liveData := by
    intro graphs
    induction graphs with
    | nil => simp
    | cons g rest ih =>
      intro s
      rw [List.foldl_cons, ih, SortedSet.mem_insertAll, ← SortedSet.mem_iff]
      simp only [List.mem_cons, exists_eq_or_imp, or_left_comm, or_assoc]
  unfold liveData
  rw [hfold]
  exact or_iff_right (List.not_mem_nil)

end Model

namespace Blueprint
variable {b : Blueprint} {m : Model}

theorem mem_of_mapM_ok {α β ε : Type} {f : α → Except ε β} {as : List α} {bs : List β}
    (h : as.mapM f = .ok bs) {x : β} (hx : x ∈ bs) : ∃ a ∈ as, f a = .ok x := by
  induction as generalizing bs with
  | nil =>
    cases h
    cases hx
  | cons a rest ih =>
    rw [List.mapM_cons] at h
    cases ha : f a with
    | error e => rw [ha] at h; cases h
    | ok y =>
      rw [ha] at h
      cases hrest : rest.mapM f with
      | error e => rw [hrest] at h; cases h
      | ok ys =>
        rw [hrest] at h
        cases h
        rcases List.mem_cons.1 hx with rfl | hx
        · exact ⟨a, List.mem_cons_self, ha⟩
        · obtain ⟨c, hc, hfc⟩ := ih hrest hx
          exact ⟨c, List.mem_cons_of_mem _ hc, hfc⟩

/-- A blueprint that is built has one graph for each target, and these make up its model. -/
theorem build_steps (h : b.build = .ok m) :
    b.targets.mapM (b.graphFor b.nodes) = .ok m.graphs ∧ Model.ofGraphs m.graphs = .ok m := by
  unfold build at h
  cases hforM : b.registrations.forM Registration.checkApplicable with
  | error e => rw [hforM] at h; cases h
  | ok u =>
    cases hgraphs : b.targets.mapM (b.graphFor b.nodes) with
    | error e => simp only [hforM, hgraphs, bind, Except.bind] at h; cases h
    | ok graphs =>
      simp only [hforM, hgraphs, bind, Except.bind] at h
      obtain ⟨rfl, -⟩ := Model.ofGraphs_ok h
      exact ⟨rfl, h⟩

theorem graphs_of_build (h : b.build = .ok m) :
    b.targets.mapM (b.graphFor b.nodes) = .ok m.graphs ∧ m.WellFormed :=
  (build_steps h).imp_right fun hm => (Model.ofGraphs_ok hm).2

theorem build_ok (h : b.build = .ok m) :
    (∀ g ∈ m.graphs, ∃ t, b.graphFor b.nodes t = .ok g) ∧ m.WellFormed := by
  obtain ⟨hgraphs, hm⟩ := graphs_of_build h
  refine ⟨?_, hm⟩
  intro g hg
  obtain ⟨t, -, ht⟩ := mem_of_mapM_ok hgraphs hg
  exact ⟨t, ht⟩

theorem accepted_of_build (h : b.build = .ok m) {g : Graph} (hg : g ∈ m.graphs) : g.Accepted := by
  obtain ⟨t, ht⟩ := (build_ok h).1 g hg
  exact ⟨_, _, _, ht⟩

/-- The node stems from the registration. -/
structure Stems (b : Blueprint) (n : Node) (r : Registration) : Prop where
  place : b.registrations[n.id.index]? = some r
  calculation : n.calculation = r.calculation
  target : n.target = r.target
  inputs : n.inputs = b.inputsOf r
  outputs : ∀ spec ∈ n.outputs, spec ∈ r.results

theorem Stems.mem {n : Node} {r : Registration} (h : b.Stems n r) : r ∈ b.registrations :=
  List.mem_of_getElem? h.place

theorem exists_stem (h : b.build = .ok m) {g : Graph} (hg : g ∈ m.graphs) {n : Node} (hn : n ∈ g.nodes) :
    ∃ r, b.Stems n r := by
  obtain ⟨t, ht⟩ := (build_ok h).1 g hg
  have hmem := (List.mem_filter.1 (Graph.mem_of_ofNodes ht hn)).1
  obtain ⟨⟨r, i⟩, hr, rfl⟩ := List.mem_map.1 hmem
  have hplace : b.registrations[i]? = some r := List.mem_zipIdx_iff_getElem?.1 hr
  exact ⟨r, hplace, rfl, rfl, rfl, fun spec hspec => mem_distinct.1 hspec⟩

theorem mem_outputs_of_stems {n : Node} {r : Registration} (h : b.Stems n r) {spec : Specification}
    (hspec : spec ∈ n.outputs) : spec ∈ b.outputs :=
  List.mem_flatMap.2 ⟨r, h.mem, h.outputs spec hspec⟩

/-- Live data is chosen where nothing produced satisfies the requirement, and it is declared. -/
theorem resolve_live {q d : Requirement} (h : b.resolve q = .live d) :
    q.satisfiedBy d.resolve = true ∧ d ∈ b.liveData ∧ d.resolve ∉ b.outputs := by
  unfold resolve at h
  split at h
  · cases h
  · next hnone =>
    split at h
    · next hfound =>
      cases h
      have hsat := List.find?_some (p := fun d : Requirement => q.satisfiedBy d.resolve) hfound
      exact ⟨hsat, List.mem_of_find?_eq_some hfound,
        fun hmem => List.find?_eq_none.1 hnone _ hmem hsat⟩
    · cases h

/-- What is chosen is the first declaration that resolves as it does. -/
theorem find?_of_resolve_live {q d : Requirement} (h : b.resolve q = .live d) :
    b.liveData.find? (fun x => x.resolve == d.resolve) = some d := by
  unfold resolve at h
  split at h
  · cases h
  · split at h
    · next hfound =>
      cases h
      obtain ⟨hsat, front, back, hsplit, hfront⟩ := List.find?_eq_some_iff_append.1 hfound
      refine List.find?_eq_some_iff_append.2 ⟨by simp, front, back, hsplit, fun a ha => ?_⟩
      -- an earlier one that resolves the same would have been chosen
      have hnot := hfront a ha
      simp only [Bool.not_eq_true', beq_eq_false_iff_ne]
      intro he
      rw [he, hsat] at hnot
      cases hnot
    · cases h

theorem exists_of_mem_liveData (h : b.build = .ok m) {d : Requirement} (hd : d ∈ m.liveData) :
    ∃ r ∈ b.registrations, ∃ q ∈ r.requirements, b.resolve q = .live d := by
  obtain ⟨g, hg, hdg⟩ := Model.mem_liveData.1 hd
  obtain ⟨t, ht⟩ := (build_ok h).1 g hg
  obtain ⟨-, -, rfl⟩ := Graph.ofNodes_ok ht
  obtain ⟨r, hr, hlive⟩ := List.mem_flatMap.1 (SortedSet.mem_ofList.1 hdg)
  obtain ⟨q, hq, hres⟩ := List.mem_filterMap.1 hlive
  refine ⟨r, (List.mem_filter.1 hr).1, q, hq, ?_⟩
  cases hc : b.resolve q with
  | live declared =>
    rw [hc] at hres
    cases hres
    rfl
  | produced _ | dangling _ =>
    rw [hc] at hres
    cases hres

/-- Live data of a model that resolves the same is the same. -/
theorem liveData_injective (h : b.build = .ok m) {d d' : Requirement} (hd : d ∈ m.liveData)
    (hd' : d' ∈ m.liveData) (he : d.resolve = d'.resolve) : d = d' := by
  obtain ⟨_, _, q, _, hq⟩ := exists_of_mem_liveData h hd
  obtain ⟨_, _, q', _, hq'⟩ := exists_of_mem_liveData h hd'
  have hfirst := find?_of_resolve_live hq
  rw [he, find?_of_resolve_live hq'] at hfirst
  exact (Option.some.inj hfirst).symm

/-- What a requirement of a node is resolved to is live data of the model, and an input of the node. -/
theorem live_of_stems (h : b.build = .ok m) {g : Graph} (hg : g ∈ m.graphs) {n : Node} (hn : n ∈ g.nodes)
    {r : Registration} (hr : b.Stems n r) {q d : Requirement} (hq : q ∈ r.requirements)
    (hlive : b.resolve q = .live d) : d ∈ m.liveData ∧ d.resolve ∈ n.inputs := by
  constructor
  · obtain ⟨t, ht⟩ := (build_ok h).1 g hg
    have htarget := (List.mem_filter.1 (Graph.mem_of_ofNodes ht hn)).2
    rw [hr.target] at htarget
    have hd : d ∈ b.liveOf r := List.mem_filterMap.2 ⟨q, hq, by simp [hlive, Resolution.live?]⟩
    obtain ⟨-, -, rfl⟩ := Graph.ofNodes_ok ht
    refine Model.mem_liveData.2 ⟨_, hg, SortedSet.mem_ofList.2 (List.mem_flatMap.2 ⟨r, ?_, hd⟩)⟩
    exact List.mem_filter.2 ⟨hr.mem, htarget⟩
  · rw [hr.inputs]
    exact List.mem_map.2 ⟨q, hq, by simp [hlive, Resolution.input]⟩

/-- The values seeded for the live data of a model are none that it produces. -/
theorem live_not_produced (h : b.build = .ok m) {d : Requirement} (hd : d ∈ m.liveData) {g : Graph}
    (hg : g ∈ m.graphs) {n : Node} (hn : n ∈ g.nodes) : d.resolve ∉ n.outputs := by
  obtain ⟨_, _, q, _, hq⟩ := exists_of_mem_liveData h hd
  obtain ⟨r, hr⟩ := exists_stem h hg hn
  exact fun hmem => (resolve_live hq).2.2 (mem_outputs_of_stems hr hmem)

end Blueprint

end CalcCycle
