import CalcCycle.Proofs.Graph.Acyclic
import CalcCycle.Proofs.Graph.Model

/-! What a graph and a model are refused for. A graph is refused for the first node that fails a check, or for
a cycle among its nodes; a model for the first graph that has a node without a free slot or a value that is
already produced. What is not refused for one of these reasons is accepted, and each node of a model stands at
the place of its id. -/

namespace CalcCycle

/-- Steps that fail have gone well up to the one that fails. -/
theorem foldlM_error {α β ε : Type} {f : β → α → Except ε β} {as : List α} {b : β} {e : ε}
    (h : as.foldlM f b = .error e) :
    ∃ front a back c, as = front ++ a :: back ∧ front.foldlM f b = .ok c ∧ f c a = .error e := by
  induction as generalizing b with
  | nil => cases h
  | cons a rest ih =>
    rw [List.foldlM_cons] at h
    cases hstep : f b a with
    | error reason =>
      rw [hstep] at h
      cases h
      exact ⟨[], a, rest, b, rfl, rfl, hstep⟩
    | ok next =>
      rw [hstep] at h
      obtain ⟨front, x, back, c, rfl, hfront, hx⟩ := ih h
      exact ⟨a :: front, x, back, c, rfl, by rw [List.foldlM_cons, hstep]; exact hfront, hx⟩

namespace Graph

/-! ### Graphs -/

/-- The first check that the node fails, where `front` are the nodes before it. -/
inductive Violates (target : Target) (front : List Node) (n : Node) : GraphError → Prop
  | target (other : n.target ≠ target) : Violates target front n (.targetMismatch n.id n.target target)
  | id (same : n.target = target) (used : ∃ a ∈ front, a.id = n.id) : Violates target front n (.duplicateNode n.id)
  | output {before s after} (same : n.target = target) (new : ∀ a ∈ front, a.id ≠ n.id)
    (outputs : n.outputs = before ++ s :: after) (free : ∀ x ∈ before, ∀ a ∈ front, x ∉ a.outputs)
    (taken : ∃ a ∈ front, s ∈ a.outputs) : Violates target front n (.duplicateProducer s)

/-- A node is refused for one check only. -/
theorem Violates.unique {target : Target} {front : List Node} {n : Node} {e e' : GraphError}
    (h : Violates target front n e) (h' : Violates target front n e') : e = e' := by
  cases h with
  | target other =>
    cases h' with
    | target => rfl
    | id same => exact absurd same other
    | output same => exact absurd same other
  | id same used =>
    obtain ⟨a, ha, hid⟩ := used
    cases h' with
    | target other => exact absurd same other
    | id => rfl
    | output _ new => exact absurd hid (new a ha)
  | @output before s after same new outputs free taken =>
    cases h' with
    | target other => exact absurd same other
    | id _ used =>
      obtain ⟨a, ha, hid⟩ := used
      exact absurd hid (new a ha)
    | @output before' s' after' _ _ outputs' free' taken' =>
      -- both values are the first of the outputs that is produced already
      have hfirst : ∀ {before s after}, n.outputs = before ++ s :: after →
          (∀ x ∈ before, ∀ a ∈ front, x ∉ a.outputs) → (∃ a ∈ front, s ∈ a.outputs) →
          n.outputs.find? (fun x => ∃ a ∈ front, x ∈ a.outputs) = some s := by
        intro before s after houtputs hfree htaken
        exact List.find?_eq_some_iff_append.2
          ⟨by simpa using htaken, before, after, houtputs, fun x hx => by simpa using hfree x hx⟩
      have hsame := (hfirst outputs free taken).symm.trans (hfirst outputs' free' taken')
      rw [Option.some.inj hsame]

/-- What the first of the nodes is refused for that fails a check, where `done` are the nodes before them. -/
def FirstFault (target : Target) (done nodes : List Node) (e : GraphError) : Prop :=
  ∃ front n back, nodes = front ++ n :: back ∧ Violates target (done ++ front) n e ∧
    ∀ before m after, front = before ++ m :: after → ∀ e', ¬ Violates target (done ++ before) m e'

theorem FirstFault.cons_iff {target : Target} {done : List Node} {n : Node} {rest : List Node} {e : GraphError} :
    FirstFault target done (n :: rest) e ↔ Violates target done n e ∨
      (∀ e', ¬ Violates target done n e') ∧ FirstFault target (done ++ [n]) rest e := by
  constructor
  · rintro ⟨front, m, back, hsplit, hviolates, hfirst⟩
    cases front with
    | nil =>
      obtain ⟨rfl, rfl⟩ := List.cons.inj hsplit
      exact Or.inl (by simpa using hviolates)
    | cons x front =>
      obtain ⟨rfl, rfl⟩ := List.cons.inj hsplit
      refine Or.inr ⟨by simpa using hfirst [] n front rfl, front, m, back, rfl, by simpa using hviolates, ?_⟩
      intro before k after h
      simpa using hfirst (n :: before) k after (by rw [h, List.cons_append])
  · rintro (hviolates | ⟨hnone, front, m, back, rfl, hviolates, hfirst⟩)
    · exact ⟨[], n, rest, rfl, by simpa using hviolates, by simp⟩
    · refine ⟨n :: front, m, back, rfl, by simpa using hviolates, ?_⟩
      intro before k after h
      cases before with
      | nil =>
        obtain ⟨rfl, -⟩ := List.cons.inj h
        simpa using hnone
      | cons x before =>
        obtain ⟨rfl, hfront⟩ := List.cons.inj h
        simpa using hfirst before k after hfront

/-- A node is refused for what it violates, and passed if that is nothing. -/
theorem validate_cons {target : Target} {done : List Node} {ids : List NodeId} {produced : List Specification}
    (hids : ∀ id, id ∈ ids ↔ ∃ a ∈ done, a.id = id) (hproduced : ∀ s, s ∈ produced ↔ ∃ a ∈ done, s ∈ a.outputs)
    (n : Node) (rest : List Node) :
    (∃ e, Violates target done n e ∧ validate target ids produced (n :: rest) = .error e) ∨
      (∀ e, ¬ Violates target done n e) ∧ validate target ids produced (n :: rest) =
        validate target (n.id :: ids) (n.outputs ++ produced) rest := by
  rw [validate]
  split_ifs with htarget hid
  · exact Or.inl ⟨_, .target htarget, rfl⟩
  · exact Or.inl ⟨_, .id (not_not.1 htarget) ((hids _).1 hid), rfl⟩
  · have hnew : ∀ a ∈ done, a.id ≠ n.id := fun a ha he => hid ((hids _).2 ⟨a, ha, he⟩)
    split
    · next s hfound =>
      obtain ⟨htaken, before, after, houtputs, hfree⟩ := List.find?_eq_some_iff_append.1 hfound
      refine Or.inl ⟨_, .output (not_not.1 htarget) hnew houtputs ?_ ((hproduced s).1 (by simpa using htaken)), rfl⟩
      intro x hx a ha hmem
      have hnot : x ∉ produced := by simpa using hfree x hx
      exact hnot ((hproduced x).2 ⟨a, ha, hmem⟩)
    · next hnone =>
      refine Or.inr ⟨fun e hviolates => ?_, rfl⟩
      cases hviolates with
      | target other => exact htarget other
      | id _ used =>
        obtain ⟨a, ha, he⟩ := used
        exact hnew a ha he
      | @output _ s _ _ _ houtputs _ htaken =>
        have hnot : s ∉ produced := by simpa using List.find?_eq_none.1 hnone s (by simp [houtputs])
        exact hnot ((hproduced s).2 htaken)

theorem validate_error_iff {target : Target} {done nodes : List Node} {ids : List NodeId}
    {produced : List Specification} {e : GraphError} (hids : ∀ id, id ∈ ids ↔ ∃ a ∈ done, a.id = id)
    (hproduced : ∀ s, s ∈ produced ↔ ∃ a ∈ done, s ∈ a.outputs) :
    validate target ids produced nodes = .error e ↔ FirstFault target done nodes e := by
  induction nodes generalizing done ids produced with
  | nil => exact iff_of_false nofun (by simp [FirstFault])
  | cons n rest ih =>
    rw [FirstFault.cons_iff]
    rcases validate_cons hids hproduced n rest with ⟨reason, hviolates, hv⟩ | ⟨hnone, hv⟩
    · rw [hv]
      constructor
      · intro h
        cases h
        exact Or.inl hviolates
      · rintro (h | ⟨hnone, -⟩)
        · rw [hviolates.unique h]
        · exact absurd hviolates (hnone _)
    · have hids' : ∀ id, id ∈ n.id :: ids ↔ ∃ a ∈ done ++ [n], a.id = id := fun id => by
        simp [hids, or_comm, eq_comm]
      rw [hv, ih hids' fun s => by simp [hproduced, or_comm]]
      simp [hnone]

/-- The nodes are for the target, and neither an id nor a value is that of two of them. -/
structure Checked (t : Target) (nodes : List Node) : Prop where
  target : ∀ n ∈ nodes, n.target = t
  ids : (nodes.map (·.id)).Nodup
  apart : nodes.Pairwise Node.Apart

theorem FirstFault.not_checked {t : Target} {nodes : List Node} {e : GraphError} (h : FirstFault t [] nodes e) :
    ¬ Checked t nodes := by
  obtain ⟨front, n, back, rfl, hviolates, -⟩ := h
  rintro ⟨htarget, hids, hapart⟩
  rw [List.map_append, List.map_cons] at hids
  cases hviolates with
  | target other => exact other (htarget n (by simp))
  | id same used =>
    obtain ⟨a, ha, he⟩ := used
    exact (List.nodup_append.1 hids).2.2 _ (List.mem_map_of_mem ha) _ List.mem_cons_self he
  | @output _ s _ same new outputs free taken =>
    obtain ⟨a, ha, hs⟩ := taken
    exact (List.pairwise_append.1 hapart).2.2 a ha n List.mem_cons_self s hs (by simp [outputs])

theorem validate_ok_iff {t : Target} {nodes : List Node} :
    validate t [] [] nodes = .ok () ↔ Checked t nodes := by
  constructor
  · intro h
    obtain ⟨hnodes, hids, hapart⟩ := validate_ok h
    exact ⟨fun n hn => (hnodes n hn).1, hids, hapart⟩
  · intro h
    cases hv : validate t [] [] nodes with
    | ok u => rfl
    | error e => exact absurd h ((validate_error_iff (by simp) (by simp)).1 hv).not_checked

/-- A value that the one node produces is read by the other. -/
def Feeds (nodes : List Node) (p c : NodeId) : Prop :=
  ∃ a ∈ nodes, ∃ b ∈ nodes, a.id = p ∧ b.id = c ∧ ∃ s ∈ b.inputs, s ∈ a.outputs

theorem mem_edgesAmong_iff_feeds {nodes : List Node} (h : nodes.Pairwise Node.Apart) {p c : NodeId} :
    (p, c) ∈ edgesAmong nodes ↔ Feeds nodes p c := by
  rw [mem_edgesAmong]
  constructor
  · rintro ⟨b, hb, hc, s, hs, hproducer⟩
    obtain ⟨a, ha, hp, hout⟩ := (producerAmong_eq_some_iff h).1 hproducer
    exact ⟨a, ha, b, hb, hp, hc, s, hs, hout⟩
  · rintro ⟨a, ha, b, hb, hp, hc, s, hs, hout⟩
    exact ⟨b, hb, hc, s, hs, (producerAmong_eq_some_iff h).2 ⟨a, ha, hp, hout⟩⟩

/-- The depth first order follows the edges of nodes that pass the checks exactly if there is no cycle. -/
theorem isForward_iff {nodes : List Node} (h : nodes.Pairwise Node.Apart) :
    DepthFirst.isForward (DepthFirst.order (nodes.map (·.id)) (targetsOf (edgesAmong nodes)))
      (edgesAmong nodes) = true ↔ DepthFirst.Acyclic (Feeds nodes) := by
  have hedges : ∀ e ∈ edgesAmong nodes, e.1 ∈ nodes.map (·.id) ∧ e.2 ∈ nodes.map (·.id) := by
    intro e he
    obtain ⟨a, ha, b, hb, hp, hc, -⟩ := (mem_edgesAmong_iff_feeds h).1 he
    exact ⟨hp ▸ List.mem_map_of_mem ha, hc ▸ List.mem_map_of_mem hb⟩
  rw [DepthFirst.isForward_order_iff (fun _ _ => mem_targetsOf) hedges]
  simp only [mem_edgesAmong_iff_feeds h]

/-- Nodes are refused for the first that fails a check, and if none does, for a cycle among them. -/
theorem ofNodes_error_iff {t : Target} {nodes : List Node} {liveData : List Requirement} {e : GraphError} :
    ofNodes t nodes liveData = .error e ↔ FirstFault t [] nodes e ∨
      Checked t nodes ∧ ¬ DepthFirst.Acyclic (Feeds nodes) ∧ e = .circularDependency t := by
  have hfault : ∀ e', validate t [] [] nodes = .error e' ↔ FirstFault t [] nodes e' :=
    fun e' => validate_error_iff (by simp) (by simp)
  rw [← hfault, ← validate_ok_iff]
  unfold ofNodes
  cases hv : validate t [] [] nodes with
  | error reason => simp [bind, Except.bind]
  | ok u =>
    rw [← isForward_iff (validate_ok hv).2.2]
    simp only [bind, Except.bind]
    split_ifs with hforward
    · simp [hforward, pure, Except.pure]
    · simp [hforward, throw, throwThe, MonadExceptOf.throw, eq_comm]

theorem acyclic_of_ofNodes {target : Target} {nodes : List Node} {liveData : List Requirement} {g : Graph}
    (h : ofNodes target nodes liveData = .ok g) : DepthFirst.Acyclic (Feeds nodes) := by
  obtain ⟨hv, hforward, -⟩ := ofNodes_ok h
  exact (isForward_iff (validate_ok hv).2.2).1 hforward

end Graph

namespace Model

/-! ### Models -/

theorem placeNode_error {slots : List (Option Node)} {n : Node} {e : GraphError}
    (h : placeNode slots n = .error e) :
    (slots.length ≤ n.id.index ∧ e = .unknownNode n.id) ∨
      (∃ m, slots[n.id.index]? = some (some m)) ∧ e = .duplicateNode n.id := by
  unfold placeNode at h
  split at h
  · next hnone =>
    cases h
    exact Or.inl ⟨List.getElem?_eq_none_iff.1 hnone, rfl⟩
  · next m htaken =>
    cases h
    exact Or.inr ⟨⟨m, htaken⟩, rfl⟩
  · cases h

/-- Whoever stands in a slot stood there before or has been placed there. -/
theorem placeNodes_origin {nodes : List Node} {slots slots' : List (Option Node)}
    (h : nodes.foldlM placeNode slots = .ok slots') {i : Nat} {m : Node} (hi : slots'[i]? = some (some m)) :
    slots[i]? = some (some m) ∨ m ∈ nodes ∧ m.id.index = i := by
  induction nodes generalizing slots with
  | nil =>
    cases h
    exact Or.inl hi
  | cons n rest ih =>
    rw [List.foldlM_cons] at h
    cases hn : placeNode slots n with
    | error e =>
      rw [hn] at h
      cases h
    | ok next =>
      rw [hn] at h
      rcases ih h with hnext | ⟨hm, hid⟩
      · unfold placeNode at hn
        split at hn
        · cases hn
        · cases hn
        · cases hn
          rw [List.getElem?_set] at hnext
          split_ifs at hnext with he hlt
          · cases hnext
            exact Or.inr ⟨List.mem_cons_self, he⟩
          · exact Or.inl hnext
      · exact Or.inr ⟨List.mem_cons_of_mem _ hm, hid⟩

/-- What is known when the graphs have been placed into `count` slots. -/
structure Filling.Of (f : Filling) (count : Nat) (graphs : List Graph) : Prop where
  length : f.slots.length = count
  slots : ∀ i m, f.slots[i]? = some (some m) → (∃ g ∈ graphs, m ∈ g.nodes) ∧ m.id.index = i
  produced : ∀ s, s ∈ f.produced ↔ ∃ g ∈ graphs, s ∈ g.outputs

/-- What the graph is refused for, where `front` are the graphs before it. -/
inductive Violates (count : Nat) (front : List Graph) (g : Graph) : GraphError → Prop
  | range {n} (node : n ∈ g.nodes) (beyond : count ≤ n.id.index) : Violates count front g (.unknownNode n.id)
  | id {before n after} (nodes : g.nodes = before ++ n :: after)
    (used : ∃ a, (a ∈ before ∨ ∃ x ∈ front, a ∈ x.nodes) ∧ a.id = n.id) :
    Violates count front g (.duplicateNode n.id)
  | output {s} (here : s ∈ g.outputs) (there : ∃ x ∈ front, s ∈ x.outputs) :
    Violates count front g (.duplicateProducer s)

theorem Filling.Of.start (count : Nat) : Filling.Of { slots := List.replicate count none } count [] where
  length := List.length_replicate
  slots i m h := by
    cases List.eq_of_mem_replicate (List.mem_of_getElem? h)
  produced s := by simp

theorem Filling.Of.place {f f' : Filling} {count : Nat} {front : List Graph} {g : Graph}
    (h : f.Of count front) (hg : placeGraph f g = .ok f') : f'.Of count (front ++ [g]) := by
  obtain ⟨hplaced, -, hproduced⟩ := placeGraph_ok hg
  refine ⟨hplaced.length.trans h.length, ?_, ?_⟩
  · intro i m hi
    have hnodes : g.nodes.foldlM placeNode f.slots = .ok f'.slots := by
      unfold placeGraph at hg
      cases hn : g.nodes.foldlM placeNode f.slots with
      | error e =>
        rw [hn] at hg
        cases hg
      | ok slots =>
        rw [hn] at hg
        simp only [bind, Except.bind] at hg
        split at hg <;> cases hg
        rfl
    rcases placeNodes_origin hnodes hi with hold | ⟨hm, hid⟩
    · obtain ⟨⟨x, hx, hm⟩, hid⟩ := h.slots i m hold
      exact ⟨⟨x, List.mem_append_left _ hx, hm⟩, hid⟩
    · exact ⟨⟨g, by simp, hm⟩, hid⟩
  · intro s
    rw [hproduced, List.mem_append, h.produced]
    simp [or_comm]

theorem Filling.Of.placeAll {f f' : Filling} {count : Nat} {front graphs : List Graph} (h : f.Of count front)
    (hgs : graphs.foldlM placeGraph f = .ok f') : f'.Of count (front ++ graphs) := by
  induction graphs generalizing f front with
  | nil =>
    cases hgs
    simpa using h
  | cons g rest ih =>
    rw [List.foldlM_cons] at hgs
    cases hg : placeGraph f g with
    | error e =>
      rw [hg] at hgs
      cases hgs
    | ok next =>
      rw [hg] at hgs
      simpa using ih (h.place hg) hgs

theorem Filling.Of.violates {f : Filling} {count : Nat} {front : List Graph} {g : Graph} {e : GraphError}
    (h : f.Of count front) (hg : placeGraph f g = .error e) : Violates count front g e := by
  unfold placeGraph at hg
  cases hn : g.nodes.foldlM placeNode f.slots with
  | error reason =>
    rw [hn] at hg
    cases hg
    obtain ⟨before, n, after, slots, hnodes, hbefore, hplace⟩ := foldlM_error hn
    rcases placeNode_error hplace with ⟨hbeyond, rfl⟩ | ⟨⟨a, htaken⟩, rfl⟩
    · rw [(placeNodes_ok hbefore).length, h.length] at hbeyond
      exact .range (by simp [hnodes]) hbeyond
    · refine .id hnodes ⟨a, ?_⟩
      rcases placeNodes_origin hbefore htaken with hold | ⟨ha, hid⟩
      · obtain ⟨hmem, hid⟩ := h.slots _ _ hold
        exact ⟨Or.inr hmem, NodeId.index_injective hid⟩
      · exact ⟨Or.inl ha, NodeId.index_injective hid⟩
  | ok slots =>
    rw [hn] at hg
    simp only [bind, Except.bind] at hg
    split at hg
    · next s hfound =>
      cases hg
      have hmem : s ∈ f.produced := by simpa using List.find?_some hfound
      exact .output (List.mem_of_find?_eq_some hfound) ((h.produced s).1 hmem)
    · cases hg

theorem ofGraphs_error {graphs : List Graph} {e : GraphError} (h : ofGraphs graphs = .error e) :
    ∃ front g back, graphs = front ++ g :: back ∧ Violates (total (·.nodes.length) graphs) front g e := by
  unfold ofGraphs at h
  simp only at h
  cases hf : graphs.foldlM placeGraph
      { slots := List.replicate (total (·.nodes.length) graphs) none } with
  | ok filling =>
    rw [hf] at h
    cases h
  | error reason =>
    rw [hf] at h
    cases h
    obtain ⟨front, g, back, f, hsplit, hfront, hg⟩ := foldlM_error hf
    have hof : f.Of (total (·.nodes.length) graphs) front := by
      simpa using (Filling.Of.start _).placeAll hfront
    exact ⟨front, g, back, hsplit, hof.violates hg⟩

/-- The nodes of a model are those in the slots, all of which have been filled. -/
theorem exists_filling {graphs : List Graph} {m : Model} (h : ofGraphs graphs = .ok m) :
    ∃ f : Filling, graphs.foldlM placeGraph { slots := List.replicate (total (·.nodes.length) graphs) none } = .ok f ∧
      m.nodes.map some = f.slots := by
  unfold ofGraphs at h
  simp only at h
  cases hf : graphs.foldlM placeGraph
      { slots := List.replicate (total (·.nodes.length) graphs) none } with
  | error e =>
    rw [hf] at h
    cases h
  | ok filling =>
    rw [hf] at h
    cases h
    refine ⟨filling, rfl, ?_⟩
    obtain ⟨hplaced, -, -⟩ := placeGraphs_ok hf
    -- as many slots have been filled as there are
    have hcount : filling.slots.countP Option.isSome = filling.slots.length := by
      rw [hplaced.count, hplaced.length, List.length_replicate, total_nodes, List.countP_replicate]
      simp
    change (filling.slots.filterMap id).map some = filling.slots
    rw [List.countP_eq_length] at hcount
    generalize filling.slots = slots at hcount
    induction slots with
    | nil => rfl
    | cons slot rest ih =>
      obtain ⟨hslot, hrest⟩ := List.forall_mem_cons.1 hcount
      obtain ⟨n, rfl⟩ := Option.isSome_iff_exists.1 hslot
      exact congrArg (some n :: ·) (ih hrest)

/-- A model has as many nodes as its graphs together, and each of them at the place of its id. -/
theorem nodes_of_ofGraphs {graphs : List Graph} {m : Model} (h : ofGraphs graphs = .ok m) :
    m.nodeCount = total (·.nodes.length) graphs ∧ ∀ g ∈ graphs, ∀ n ∈ g.nodes, m.node? n.id = some n := by
  obtain ⟨f, hf, hslots⟩ := exists_filling h
  obtain ⟨hplaced, -, -⟩ := placeGraphs_ok hf
  refine ⟨?_, fun g hg n hn => ?_⟩
  · have hlength := congrArg List.length hslots
    rwa [List.length_map, hplaced.length, List.length_replicate] at hlength
  · have hfilled := hplaced.filled n (List.mem_flatMap.2 ⟨g, hg, hn⟩)
    rw [← hslots, List.getElem?_map] at hfilled
    unfold node?
    simpa using hfilled

/-- No other nodes stand there. -/
theorem origin_of_ofGraphs {graphs : List Graph} {m : Model} (h : ofGraphs graphs = .ok m) {id : NodeId} {n : Node}
    (hn : m.node? id = some n) : (∃ g ∈ graphs, n ∈ g.nodes) ∧ n.id = id := by
  obtain ⟨f, hf, hslots⟩ := exists_filling h
  have hof : f.Of (total (·.nodes.length) graphs) graphs := by
    simpa using (Filling.Of.start _).placeAll hf
  have hslot : f.slots[id.index]? = some (some n) := by
    rw [← hslots, List.getElem?_map]
    exact congrArg (Option.map some) hn
  obtain ⟨hmem, hid⟩ := hof.slots _ _ hslot
  exact ⟨hmem, NodeId.index_injective hid⟩

end Model

end CalcCycle
