import CalcCycle.Proofs.Graph.Assembly

/-! Which live data a model asks for. A requirement that no declared output satisfies falls to the first
declaration of live data that does. A graph asks for the declarations to which the requirements of its
registrations fall, and for no others. Since every requirement looks through the declarations from the first
on, no two that are asked for have the same value; and since it looks at the outputs before, none is produced. -/

namespace CalcCycle.Blueprint
variable {b : Blueprint} {m : Model}

/-- The requirement falls to this declaration of live data. -/
structure Chooses (b : Blueprint) (q d : Requirement) : Prop where
  unproduced : ∀ r ∈ b.registrations, ∀ spec ∈ r.results, q.satisfiedBy spec = false
  first : ∃ front back, b.liveData = front ++ d :: back ∧ q.satisfiedBy d.resolve = true ∧
    ∀ a ∈ front, q.satisfiedBy a.resolve = false

theorem find?_outputs_eq_none {q : Requirement} :
    b.outputs.find? q.satisfiedBy = none ↔ ∀ r ∈ b.registrations, ∀ spec ∈ r.results, q.satisfiedBy spec = false := by
  simp only [outputs, List.find?_eq_none, List.mem_flatMap, forall_exists_index, and_imp, Bool.not_eq_true]
  exact ⟨fun h r hr spec hspec => h spec r hr hspec, fun h spec r hr hspec => h r hr spec hspec⟩

theorem resolve_eq_live_iff {q d : Requirement} : b.resolve q = .live d ↔ b.Chooses q d := by
  constructor
  · intro h
    unfold resolve at h
    split at h
    · cases h
    · next hnone =>
      split at h
      · next hfound =>
        cases h
        obtain ⟨hsat, front, back, hsplit, hfront⟩ := List.find?_eq_some_iff_append.1 hfound
        exact ⟨find?_outputs_eq_none.1 hnone, front, back, hsplit, hsat, fun a ha => by simpa using hfront a ha⟩
      · cases h
  · rintro ⟨hnone, front, back, hsplit, hsat, hfront⟩
    have hfound : b.liveData.find? (fun d => q.satisfiedBy d.resolve) = some d :=
      List.find?_eq_some_iff_append.2 ⟨hsat, front, back, hsplit, fun a ha => by simp [hfront a ha]⟩
    unfold resolve
    rw [find?_outputs_eq_none.2 hnone, hfound]

theorem live?_eq_some {c : Resolution} {d : Requirement} : c.live? = some d ↔ c = .live d := by
  cases c <;> simp [Resolution.live?]

theorem mem_liveOf {r : Registration} {d : Requirement} :
    d ∈ b.liveOf r ↔ ∃ q ∈ r.requirements, b.Chooses q d := by
  simp only [liveOf, List.mem_filterMap, live?_eq_some, resolve_eq_live_iff]

/-- The node of a registration at a place, with an input for each requirement: what the requirement falls to,
where that is live data. -/
structure Bears (b : Blueprint) (i : Nat) (r : Registration) (n : Node) : Prop where
  id : n.id = ⟨i⟩
  target : n.target = r.target
  calculation : n.calculation = r.calculation
  outputs : ∀ spec, spec ∈ n.outputs ↔ spec ∈ r.results
  inputs : List.Forall₂ (fun q spec => ∀ d, b.Chooses q d → spec = d.resolve) r.requirements n.inputs

theorem bears_nodeAt (b : Blueprint) (i : Nat) (r : Registration) : b.Bears i r (b.nodeAt i r) := by
  refine ⟨rfl, rfl, rfl, fun _ => mem_distinct, ?_⟩
  change List.Forall₂ _ r.requirements (r.requirements.map fun q => (b.resolve q).input)
  rw [List.forall₂_map_right_iff, List.forall₂_same]
  intro q _ d hd
  rw [resolve_eq_live_iff.2 hd]
  rfl

/-- The model has a node for each registration, and asks for the live data that these need. -/
structure Collects (b : Blueprint) (m : Model) : Prop where
  count : m.nodeCount = b.registrations.length
  node : ∀ i r, b.registrations[i]? = some r → ∃ n, m.node? ⟨i⟩ = some n ∧ b.Bears i r n ∧
    ∃ g ∈ m.graphs, g.target = r.target ∧ n ∈ g.nodes
  member : ∀ g ∈ m.graphs, ∀ n ∈ g.nodes, n.target = g.target ∧ m.node? n.id = some n
  graph : ∀ g ∈ m.graphs, ∀ d, d ∈ g.liveData ↔
    ∃ r ∈ b.registrations, r.target = g.target ∧ ∃ q ∈ r.requirements, b.Chooses q d
  model : ∀ d, d ∈ m.liveData ↔ ∃ g ∈ m.graphs, d ∈ g.liveData
  distinct : ∀ d ∈ m.liveData, ∀ d' ∈ m.liveData, d ≠ d' → d.resolve ≠ d'.resolve
  unproduced : ∀ d ∈ m.liveData, ∀ g ∈ m.graphs, ∀ n ∈ g.nodes, d.resolve ∉ n.outputs

theorem node?_of_build (h : b.build = .ok m) {i : Nat} {r : Registration} (hr : b.registrations[i]? = some r) :
    m.node? ⟨i⟩ = some (b.nodeAt i r) := by
  change m.nodes[i]? = _
  rw [nodes_of_build h, getElem?_nodes, hr]
  rfl

theorem mem_liveData_of_build (h : b.build = .ok m) {g : Graph} (hg : g ∈ m.graphs) {d : Requirement} :
    d ∈ g.liveData ↔ ∃ r ∈ b.registrations, r.target = g.target ∧ ∃ q ∈ r.requirements, b.Chooses q d := by
  obtain ⟨t, ht⟩ := (build_ok h).1 g hg
  obtain ⟨-, -, rfl⟩ := Graph.ofNodes_ok ht
  simp only [SortedSet.mem_ofList, List.mem_flatMap, List.mem_filter, beq_iff_eq, mem_liveOf, and_assoc]

/-- A model that is built asks for the live data its registrations need and for nothing else, every value once
and none that it produces. -/
theorem collects_of_build (h : b.build = .ok m) : b.Collects m := by
  refine ⟨?_, ?_, ?_, fun g hg d => mem_liveData_of_build h hg, fun d => Model.mem_liveData, ?_, ?_⟩
  · rw [Model.nodeCount, nodes_of_build h, length_nodes]
  · intro i r hr
    obtain ⟨g, hg, htarget, hn⟩ := exists_graph h (mem_nodes.2 ⟨r, hr, rfl⟩ : b.nodeAt i r ∈ b.nodes)
    exact ⟨_, node?_of_build h hr, b.bears_nodeAt i r, g, hg, htarget, hn⟩
  · intro g hg n hn
    exact ⟨target_of_mem h hg hn, (Model.nodes_of_ofGraphs (build_steps h).2).2 g hg n hn⟩
  · exact fun d hd d' hd' hne he => hne (liveData_injective h hd hd' he)
  · exact fun d hd g hg n hn => live_not_produced h hd hg hn

/-! Live data on one curve or another: of three declarations that a requirement may fall to, it falls to the
first whose least curve it accepts. -/

def onCurves (target : Target) (curves : List String) : Requirement where
  name := "Rate"
  target := target
  constraints := Constraints.accept .empty "Curve" curves

def pricing : Calculation where
  name := "Pricing"
  requirements t := [onCurves t ["SOFR", "ESTR"], onCurves t ["OIS"]]
  results t := [{ name := "Price", target := t }]
  call _ _ _ := ⟨.values [], []⟩

def curves : Blueprint where
  registrations := [⟨.primitive "EUR", pricing⟩]
  liveData := [onCurves (.primitive "EUR") ["SOFR", "OIS"], onCurves (.primitive "EUR") ["SOFR", "ESTR"],
    onCurves (.primitive "EUR") ["ESTR"]]

theorem curves_collected : ∃ m, curves.build = .ok m ∧ curves.Collects m ∧
    m.liveData.elements = [onCurves (.primitive "EUR") ["ESTR", "SOFR"], onCurves (.primitive "EUR") ["OIS", "SOFR"]] ∧
    m.nodes.map (·.inputs.map (·.properties.entries)) = [[[("Curve", "ESTR")], [("Curve", "OIS")]]] := by
  refine ⟨_, rfl, collects_of_build rfl, rfl, rfl⟩

end CalcCycle.Blueprint
