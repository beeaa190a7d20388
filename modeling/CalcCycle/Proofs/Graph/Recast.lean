import CalcCycle.Proofs.Graph.Blueprint

/-! A calculation recast: it declares the same and answers its calls in another way. What a calculation
answers plays no part when a model is built, so a blueprint with a recast calculation has the model of the
blueprint, recast. -/

namespace CalcCycle

variable (id : NodeId) (i : Nat) (call : CallContext → Target → Inputs → Reply)

/-- The calculation, with other answers. -/
def Calculation.recast (f : Calculation) : Calculation := { f with call }

/-! ### Nodes -/

namespace Node

/-- The node with the id gets other answers. -/
def recast (n : Node) : Node :=
  if n.id = id then { n with calculation := n.calculation.recast call } else n

variable {id} {call} {n : Node}

@[simp] theorem recast_id : (n.recast id call).id = n.id := by
  unfold recast
  split_ifs <;> rfl

@[simp] theorem recast_target : (n.recast id call).target = n.target := by
  unfold recast
  split_ifs <;> rfl

@[simp] theorem recast_inputs : (n.recast id call).inputs = n.inputs := by
  unfold recast
  split_ifs <;> rfl

@[simp] theorem recast_outputs : (n.recast id call).outputs = n.outputs := by
  unfold recast
  split_ifs <;> rfl

theorem recast_of_ne (h : n.id ≠ id) : n.recast id call = n := if_neg h

end Node

/-! ### Graphs -/

namespace Graph

def recast (g : Graph) : Graph := { g with nodes := g.nodes.map (·.recast id call) }

variable {id} {call} {g : Graph}

@[simp] theorem recast_target : (g.recast id call).target = g.target := rfl

@[simp] theorem recast_liveData : (g.recast id call).liveData = g.liveData := rfl

@[simp] theorem recast_outputs : (g.recast id call).outputs = g.outputs := by
  simp [outputs, recast, List.flatMap_map]

theorem validate_recast (target : Target) (ids : List NodeId) (produced : List Specification)
    (nodes : List Node) :
    validate target ids produced (nodes.map (·.recast id call)) = validate target ids produced nodes := by
  induction nodes generalizing ids produced with
  | nil => rfl
  | cons n rest ih => simp [validate, ih]

@[simp] theorem producerAmong_recast (nodes : List Node) (s : Specification) :
    producerAmong (nodes.map (·.recast id call)) s = producerAmong nodes s := by
  simp [producerAmong, List.find?_map, Function.comp_def, Node.produces]

theorem edgesAmong_recast (nodes : List Node) :
    edgesAmong (nodes.map (·.recast id call)) = edgesAmong nodes := by
  have hinto : ∀ edges n, edgesInto (nodes.map (·.recast id call)) edges (n.recast id call) =
      edgesInto nodes edges n := by
    intro edges n
    simp [edgesInto]
  simp only [edgesAmong, List.foldl_map, hinto]

/-- The order of the nodes, the check for cycles and the errors do not depend on the answers. -/
theorem ofNodes_recast (target : Target) (nodes : List Node) (live : List Requirement) :
    ofNodes target (nodes.map (·.recast id call)) live = (ofNodes target nodes live).map (·.recast id call) := by
  have hids : (nodes.map (·.recast id call)).map (·.id) = nodes.map (·.id) := by simp
  have hfind : ∀ a, (nodes.map (·.recast id call)).find? (·.id == a) =
      (nodes.find? (·.id == a)).map (·.recast id call) := by
    intro a
    simp only [List.find?_map, Function.comp_def, Node.recast_id]
  unfold ofNodes
  simp only [validate_recast, edgesAmong_recast, hids, hfind]
  cases validate target [] [] nodes with
  | error e => rfl
  | ok u =>
    simp only [bind, Except.bind]
    split_ifs
    · simp [pure, Except.pure, Except.map, recast, List.map_filterMap]
    · rfl

end Graph

/-! ### Models -/

namespace Model

def recast (m : Model) : Model where
  graphs := m.graphs.map (·.recast id call)
  nodes := m.nodes.map (·.recast id call)

variable {id} {call} {m : Model}

@[simp] theorem recast_graphs : (m.recast id call).graphs = m.graphs.map (·.recast id call) := rfl

@[simp] theorem nodeCount_recast : (m.recast id call).nodeCount = m.nodeCount := List.length_map _

theorem schedule_recast : (m.recast id call).schedule = m.schedule.map (·.recast id call) := by
  simp [schedule, partition, TargetKind.executionOrder, List.filter_map, Function.comp_def]

@[simp] theorem liveData_recast : (m.recast id call).liveData = m.liveData := by
  simp [liveData, List.foldl_map]

def Filling.recast (id : NodeId) (call : CallContext → Target → Inputs → Reply) (f : Filling) : Filling :=
  { f with slots := f.slots.map (·.map (·.recast id call)) }

theorem placeNode_recast (slots : List (Option Node)) (n : Node) :
    placeNode (slots.map (·.map (·.recast id call))) (n.recast id call) =
      (placeNode slots n).map (·.map (·.map (·.recast id call))) := by
  unfold placeNode
  rw [Node.recast_id, List.getElem?_map]
  cases slots[n.id.index]? with
  | none => rfl
  | some slot =>
    cases slot with
    | some a => rfl
    | none => simp [Except.map, List.map_set]

/-- Steps that commute with a change of what they work on do so all together. -/
theorem foldlM_comm {α β ε : Type} {f g : β → α → Except ε β} {change : β → β} {h : α → α}
    (hcomm : ∀ b a, g (change b) (h a) = (f b a).map change) (as : List α) (b : β) :
    (as.map h).foldlM g (change b) = (as.foldlM f b).map change := by
  induction as generalizing b with
  | nil => rfl
  | cons a rest ih =>
    rw [List.map_cons, List.foldlM_cons, List.foldlM_cons, hcomm]
    cases f b a with
    | error e => rfl
    | ok next => exact ih next

theorem placeGraph_recast (f : Filling) (g : Graph) :
    placeGraph (f.recast id call) (g.recast id call) = (placeGraph f g).map (·.recast id call) := by
  have hnodes : (g.recast id call).nodes.foldlM placeNode (f.recast id call).slots =
      (g.nodes.foldlM placeNode f.slots).map (·.map (·.map (·.recast id call))) :=
    foldlM_comm placeNode_recast _ _
  have hproduced : (f.recast id call).produced = f.produced := rfl
  unfold placeGraph
  rw [hnodes, hproduced, Graph.recast_outputs]
  cases g.nodes.foldlM placeNode f.slots with
  | error e => rfl
  | ok slots =>
    simp only [bind, Except.bind, Except.map, Filling.recast]
    cases g.outputs.find? (· ∈ f.produced) <;> rfl

theorem ofGraphs_recast (graphs : List Graph) :
    ofGraphs (graphs.map (·.recast id call)) = (ofGraphs graphs).map (·.recast id call) := by
  have htotal : total (·.nodes.length) (graphs.map (·.recast id call)) = total (·.nodes.length) graphs := by
    simp [total_nodes, Graph.recast, List.flatMap_map, List.length_flatMap]
  have hstart : ∀ count, Filling.recast id call { slots := List.replicate count none } =
      { slots := List.replicate count none } := by
    simp [Filling.recast]
  unfold ofGraphs
  simp only [htotal]
  conv_lhs => rw [← hstart, foldlM_comm placeGraph_recast]
  cases graphs.foldlM placeGraph { slots := List.replicate (total (·.nodes.length) graphs) none } with
  | error e => rfl
  | ok filling =>
    simp only [bind, Except.bind, pure, Except.pure, Except.map, recast, Filling.recast, List.filterMap_map,
      List.map_filterMap]
    rfl

end Model

/-! ### Blueprints -/

def Registration.recast (r : Registration) : Registration := { r with calculation := r.calculation.recast call }

namespace Blueprint

/-- The registration at the place gets other answers. -/
def recast (b : Blueprint) : Blueprint := { b with registrations := b.registrations.modify i (·.recast call) }

variable {i} {call} {b : Blueprint}

/-- What does not concern answers is the same for all registrations. -/
theorem map_recast {α : Type} {h : Registration → α} (hsame : ∀ r, h (r.recast call) = h r) :
    (b.recast i call).registrations.map h = b.registrations.map h := by
  apply List.ext_getElem?
  intro k
  simp only [recast, List.getElem?_map, List.getElem?_modify]
  cases b.registrations[k]? with
  | none => rfl
  | some r =>
    simp only [Option.map_eq_map, Option.map_some]
    split_ifs <;> simp [hsame]

theorem flatMap_recast {α : Type} {h : Registration → List α} (hsame : ∀ r, h (r.recast call) = h r) :
    (b.recast i call).registrations.flatMap h = b.registrations.flatMap h := by
  rw [List.flatMap_def, List.flatMap_def, map_recast hsame]

@[simp] theorem resolve_recast (r : Requirement) : (b.recast i call).resolve r = b.resolve r := by
  have houtputs : (b.recast i call).outputs = b.outputs := flatMap_recast fun _ => rfl
  unfold resolve
  rw [houtputs]
  rfl

theorem targets_recast : (b.recast i call).targets = b.targets := by
  unfold targets
  rw [map_recast fun _ => rfl]

theorem nodes_recast : (b.recast i call).nodes = b.nodes.map (·.recast ⟨i⟩ call) := by
  have hinputs : (b.recast i call).inputsOf = b.inputsOf := by
    funext r
    simp [inputsOf]
  apply List.ext_getElem?
  intro k
  have hplace : (b.recast i call).registrations[k]? =
      b.registrations[k]?.map fun r => if i = k then r.recast call else r := List.getElem?_modify _ _ _ _
  simp only [nodes, hinputs, List.getElem?_map, List.getElem?_zipIdx, hplace, Option.map_map]
  cases b.registrations[k]? with
  | none => rfl
  | some r =>
    simp only [Option.map_some, Function.comp_apply, Nat.zero_add, Option.some.injEq]
    split_ifs with hk
    · rw [hk]
      exact (if_pos rfl).symm
    · exact (Node.recast_of_ne fun he => hk (congrArg NodeId.index he).symm).symm

theorem graphFor_recast (nodes : List Node) (t : Target) :
    (b.recast i call).graphFor (nodes.map (·.recast ⟨i⟩ call)) t =
      (b.graphFor nodes t).map (·.recast ⟨i⟩ call) := by
  have hfilter : ∀ (rs : List Registration) (h : Registration → List Requirement),
      (rs.filter (·.target == t)).flatMap h = rs.flatMap fun r => if r.target == t then h r else [] := by
    intro rs h
    induction rs with
    | nil => rfl
    | cons r rest ih =>
      rw [List.filter_cons, List.flatMap_cons, ← ih]
      split_ifs <;> rfl
  have hlive : (b.recast i call).liveOf = b.liveOf := by
    funext r
    simp [liveOf]
  unfold graphFor
  rw [hlive, hfilter, flatMap_recast fun _ => rfl, ← hfilter, ← Graph.ofNodes_recast, List.filter_map]
  simp [Function.comp_def]

/-- The model of the blueprint, recast, and the same errors. -/
theorem build_recast : (b.recast i call).build = b.build.map (·.recast ⟨i⟩ call) := by
  have hcheck : (b.recast i call).registrations.forM Registration.checkApplicable =
      b.registrations.forM Registration.checkApplicable := by
    have hmap : (b.recast i call).registrations.map Registration.checkApplicable =
        b.registrations.map Registration.checkApplicable := map_recast fun _ => rfl
    have hforM : ∀ rs : List Registration, rs.forM Registration.checkApplicable =
        (rs.map Registration.checkApplicable).forM fun check => check := by
      intro rs
      simp only [List.forM_eq_forM, List.forM_map]
    rw [hforM, hmap, ← hforM]
  have hgraphs : b.targets.mapM ((b.recast i call).graphFor (b.recast i call).nodes) =
      (b.targets.mapM (b.graphFor b.nodes)).map (·.map (·.recast ⟨i⟩ call)) := by
    rw [nodes_recast]
    induction b.targets with
    | nil => rfl
    | cons t rest ih =>
      rw [List.mapM_cons, List.mapM_cons, graphFor_recast, ih]
      cases b.graphFor b.nodes t with
      | error e => rfl
      | ok g => cases rest.mapM (b.graphFor b.nodes) <;> rfl
  unfold build
  simp only [hcheck, targets_recast, hgraphs]
  cases b.registrations.forM Registration.checkApplicable with
  | error e => rfl
  | ok u =>
    cases b.targets.mapM (b.graphFor b.nodes) with
    | error e => rfl
    | ok graphs => exact Model.ofGraphs_recast graphs

end Blueprint

end CalcCycle
