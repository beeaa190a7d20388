import CalcCycle.Proofs.Cycle.Course
import CalcCycle.Proofs.Cycle.Completion
import CalcCycle.Proofs.Graph.Registration
import Mathlib.Logic.Relation

/-! The order in which nodes for one kind of target are dispatched. Within a graph the scheduler follows
the edges, but no edge leads from one graph to another: the graphs of a partition run in the order in
which their targets were registered, so a node of another graph has ended exactly where its target was
registered earlier. -/

namespace CalcCycle

/-- `b` reads a value that `a` produces, and both are nodes for targets of the kind. -/
structure Model.Feeds (m : Model) (k : TargetKind) (a b : Node) : Prop where
  producer : ∃ g ∈ m.partition k, a ∈ g.nodes
  reader : ∃ g ∈ m.partition k, b ∈ g.nodes
  value : ∃ spec ∈ b.inputs, spec ∈ a.outputs

/-- In the tracker the node is in a terminal state. -/
def Tracker.HasEnded (t : Tracker) (id : NodeId) : Prop := ∃ st, st.isTerminal = true ∧ t.state? id = some st

namespace GraphRun
variable {w : RunSetting} {g : Graph} {k : Nat} {past : History} {r : GraphRun} {s : RunState}
  {allowed : Move → Prop}

/-- The run of a graph leaves the states of all other nodes alone, whatever its calculations do. -/
theorem Reached.state?_of_notMem (hg : g.WellFormed) (h : Reached allowed w (GraphRun.start w g s k) past r)
    {id : NodeId} (hid : id ∉ g.nodes.map (·.id)) :
    r.state.tracker.state? id = s.tracker.state? id := by
  apply h.invariant_along (P := fun _ r => r.state.tracker.state? id = s.tracker.state? id) rfl
  intro past r m past' r' before hr _ hstep
  cases hstep with
  | @work front j back s p jobs action =>
    have ho := before.orderly hg
    have hj : j ∈ r.jobs ++ past.reported := by simp [jobs]
    have hn := (ho.dispatched_mem (ho.node_mem hj)).1
    have hne : id ≠ j.node.id := fun he => hid (he ▸ List.mem_map_of_mem hn)
    exact (action.state?_of_ne hne).trans hr
  | @receive c rest =>
    rw [(takeIn_keeps { r with reports := rest } c).1]
    exact hr
  | _ => exact hr

/-- A run that is over, went well and was not cancelled has ended all nodes of its graph. -/
theorem Reached.all_ended (hg : g.WellFormed) (h : Reached allowed w (GraphRun.start w g s k) past r)
    (hdone : r.isDone = true) {report : GraphReport} (hok : (r.closed w g).result = .ok report)
    (hgoing : (r.closed w g).state.cancelled = false) {n : Node} (hn : n ∈ g.nodes) :
    r.state.tracker.HasEnded n.id := by
  have hall := (h.wellScheduled hg).done hdone (going_of_closed hgoing) (fatal_of_result hok)
  rw [← (h.orderly hg).graph] at hn
  exact hall.terminal n hn

end GraphRun

namespace Session
variable {w : RunSetting} {gs : List Graph} {p : Progress} {jobs : List Job} {g : Graph} {past : History}
  {r : GraphRun}

theorem Underway.going (h : Underway w gs p jobs g past r) : p.state.cancelled = false := by
  cases h with
  | inside going => exact going
  | after going => exact going

/-- Where a cycle has come to a graph, the nodes of the graphs before have ended, and no other node has
been moved but those of this graph. -/
theorem Underway.split (hgs : ∀ a ∈ gs, a.Accepted) (hseparate : gs.Pairwise Graph.Separate)
    (h : Underway w gs p jobs g past r) :
    ∃ front back, gs = front ++ g :: back ∧
      (∀ a ∈ front, ∀ n ∈ a.nodes, r.state.tracker.HasEnded n.id) ∧
      ∀ id, (∀ a ∈ front ++ [g], ∀ n ∈ a.nodes, n.id ≠ id) →
        r.state.tracker.state? id = p.state.tracker.state? id := by
  induction h with
  | @inside g rest p past r going run =>
    refine ⟨[], rest, rfl, by simp, ?_⟩
    intro id hid
    apply run.state?_of_notMem (hgs g List.mem_cons_self).wellFormed
    simpa using hid
  | @after g rest p past r report jobs g' past' r' going run done ok next ih =>
    obtain ⟨hapart, hseparate⟩ := List.pairwise_cons.1 hseparate
    obtain ⟨hg, hrest⟩ := List.forall_mem_cons.1 hgs
    obtain ⟨front, back, rfl, hended, hsame⟩ := ih hrest hseparate
    refine ⟨g :: front, back, rfl, ?_, ?_⟩
    · intro a ha n hn
      rcases List.mem_cons.1 ha with rfl | ha
      · -- no later graph has the node, so it stays as its own run has left it
        obtain ⟨st, hterminal, hst⟩ := run.all_ended hg.wellFormed done ok next.going hn
        refine ⟨st, hterminal, (hsame n.id ?_).trans hst⟩
        intro b hb m hm he
        refine (hapart b ?_ n hn m hm).1 he.symm
        simp only [List.mem_append, List.mem_cons, List.not_mem_nil, or_false] at hb ⊢
        tauto
      · exact hended a ha n hn
    · intro id hid
      have hfirst : id ∉ g.nodes.map (·.id) := by
        simpa using hid g (by simp)
      rw [hsame id fun a ha => hid a (List.mem_cons_of_mem _ ha)]
      exact run.state?_of_notMem hg.wellFormed hfirst

theorem Underway.mem (h : Underway w gs p jobs g past r) : g ∈ gs := by
  induction h with
  | inside => exact List.mem_cons_self
  | after _ _ _ _ _ ih => exact List.mem_cons_of_mem _ ih

theorem Underway.reached (h : Underway w gs p jobs g past r) :
    ∃ s k, GraphRun.Reached (fun _ => True) w (.start w g s k) past r := by
  induction h with
  | inside _ run => exact ⟨_, _, run⟩
  | after _ _ _ _ _ ih => exact ih

variable {b : Blueprint} {m : Model} {k : TargetKind}

/-- A graph for the same kind of target is behind where it was registered earlier, and ahead where it was
registered later. -/
theorem Underway.registered_cases (hbuild : b.build = .ok m)
    (h : Underway w m.schedule p jobs g past r) {x : Graph} (hx : x ∈ m.graphs)
    (hkind : x.target.kind = g.target.kind) :
    (b.place x.target < b.place g.target ∧ ∀ n ∈ x.nodes, r.state.tracker.HasEnded n.id) ∨
      x = g ∨
      (b.place g.target < b.place x.target ∧
        ∀ n ∈ x.nodes, r.state.tracker.state? n.id = p.state.tracker.state? n.id) := by
  have hgs : ∀ y ∈ m.schedule, y.Accepted := fun y hy =>
    Blueprint.accepted_of_build hbuild (Model.mem_schedule.1 hy)
  have hseparate := (Blueprint.build_ok hbuild).2.separate_schedule
  obtain ⟨front, back, hsplit, hended, hsame⟩ := h.split hgs hseparate
  have horder := Blueprint.schedule_registered hbuild
  rw [← Model.mem_schedule, hsplit, List.mem_append, List.mem_cons] at hx
  rw [hsplit] at horder hseparate
  rw [List.append_cons] at hseparate
  obtain ⟨-, hlater, hearlier⟩ := List.pairwise_append.1 horder
  rcases hx with hfront | rfl | hback
  · exact Or.inl ⟨hearlier x hfront g List.mem_cons_self hkind, hended x hfront⟩
  · exact Or.inr (Or.inl rfl)
  · refine Or.inr (Or.inr ⟨(List.pairwise_cons.1 hlater).1 x hback hkind.symm, ?_⟩)
    intro n hn
    apply hsame
    intro y hy a ha
    exact ((List.pairwise_append.1 hseparate).2.2 y hy x hback a ha n hn).1

/-- When a node is dispatched, a producer of its inputs for a target of the same kind has ended exactly
where its target was not registered later; else nobody has begun it. -/
theorem producer_ended_iff_registered (hbuild : b.build = .ok m)
    (hstart : p.state.tracker = .start m.nodeCount)
    (hunderway : Underway w m.schedule p jobs g past r) {j : Job} (hnext : r.nextJob? = some j)
    {a : Node} (hfeeds : m.Feeds k a j.node) :
    (r.state.tracker.HasEnded a.id ↔ b.place a.target ≤ b.place j.node.target) ∧
      (b.place j.node.target < b.place a.target → r.state.tracker.state? a.id = some .notStarted) := by
  obtain ⟨x, hx, ha⟩ := hfeeds.producer
  obtain ⟨y, hy, hread⟩ := hfeeds.reader
  obtain ⟨hxm, hxk⟩ := List.mem_filter.1 hx
  obtain ⟨hym, hyk⟩ := List.mem_filter.1 hy
  have hwf := (Blueprint.build_ok hbuild).2
  have hg := Model.mem_schedule.1 hunderway.mem
  obtain ⟨s, l, hrun⟩ := hunderway.reached
  have hscheduled := hrun.wellScheduled (Blueprint.accepted_of_build hbuild hg).wellFormed
  have horderly := hrun.orderly (Blueprint.accepted_of_build hbuild hg).wellFormed
  obtain rfl : y = g := hwf.graph_unique hym hg hread (horderly.next_opened hnext).1
  rw [Blueprint.target_of_mem hbuild hxm ha, Blueprint.target_of_mem hbuild hym hread]
  have hkind : x.target.kind = y.target.kind := (beq_iff_eq.1 hxk).trans (beq_iff_eq.1 hyk).symm
  rcases hunderway.registered_cases hbuild hxm hkind with ⟨hlt, hended⟩ | rfl | ⟨hlt, hsame⟩
  · have hterminal := hended a ha
    exact ⟨iff_of_true hterminal (by omega), fun h => by omega⟩
  · rw [← horderly.graph] at ha
    have hterminal := hscheduled.producers j hnext a ha hfeeds.value
    exact ⟨iff_of_true hterminal (by omega), fun h => by omega⟩
  · have hstate : r.state.tracker.state? a.id = some .notStarted := by
      rw [hsame a ha, hstart, Tracker.state?_start (hwf.bound x hxm a ha)]
    refine ⟨iff_of_false ?_ (by omega), fun _ => hstate⟩
    rintro ⟨st, hterminal, hst⟩
    rw [hstate] at hst
    cases hst
    cases hterminal

/-! A position whose value another position reads. -/

/-- Computes one value for a position, from values of other positions. -/
def positionCalculation (output : String) (sources : List (String × String)) : Calculation where
  name := output
  requirements _ := sources.map fun (name, id) => { name, target := .position id }
  results t := [{ name := output, target := t }]
  call _ t _ := ⟨.values [⟨{ name := output, target := t }, .text output⟩], []⟩

def leg : Registration := ⟨.position "Leg", positionCalculation "PV" []⟩

def total : Registration := ⟨.position "Total", positionCalculation "Total" [("PV", "Leg")]⟩

def legNode (id : Nat) : Node := .make ⟨id⟩ leg.target leg.calculation [] leg.results

def totalNode (id : Nat) : Node := .make ⟨id⟩ total.target total.calculation leg.results total.results

def lone (n : Node) : Graph := { target := n.target, nodes := [n], edges := [], liveData := .empty }

/-- A graph for every node. -/
def scattered (nodes : List Node) : Model := { graphs := nodes.map lone, nodes }

theorem mem_scattered {nodes : List Node} {k : TargetKind} {a : Node} :
    (∃ g ∈ (scattered nodes).partition k, a ∈ g.nodes) ↔ a ∈ nodes ∧ a.target.kind = k := by
  simp only [Model.partition, scattered, List.mem_filter, List.mem_map, beq_iff_eq]
  constructor
  · rintro ⟨_, ⟨⟨n, hn, rfl⟩, hk⟩, ha⟩
    rw [List.mem_singleton.1 ha]
    exact ⟨hn, hk⟩
  · rintro ⟨ha, hk⟩
    exact ⟨_, ⟨⟨a, ha, rfl⟩, hk⟩, List.mem_singleton.2 rfl⟩

theorem leg_feeds_total {nodes : List Node} {i k : Nat} (hi : legNode i ∈ nodes) (hk : totalNode k ∈ nodes) :
    (scattered nodes).Feeds .position (legNode i) (totalNode k) where
  producer := mem_scattered.2 ⟨hi, rfl⟩
  reader := mem_scattered.2 ⟨hk, rfl⟩
  value := ⟨{ name := "PV", target := .position "Leg" }, List.mem_cons_self, List.mem_cons_self⟩

theorem leg_ended_before_total :
    ∃ m, Blueprint.build { registrations := [leg, total] } = .ok m ∧
      ∃ jobs g past r j a, Underway sampleSetting m.schedule (sampleProgress 2) jobs g past r ∧
        r.nextJob? = some j ∧ m.Feeds .position a j.node ∧ r.state.tracker.HasEnded a.id := by
  have hm : Blueprint.build { registrations := [leg, total] } = .ok (scattered [legNode 0, totalNode 1]) := rfl
  have hfirst : (lone (legNode 0)).Accepted := Blueprint.accepted_of_build hm List.mem_cons_self
  obtain ⟨hdone, past, hrun⟩ :=
    WorkerPool.single_completes sampleSetting _ (sampleProgress 2).state 0 hfirst
  have hunderway : Underway sampleSetting [lone (legNode 0), lone (totalNode 1)] (sampleProgress 2) _ _ _ _ :=
    .after rfl (hrun.mono fun _ _ => trivial) hdone rfl (.inside rfl .start)
  have hfeeds : (scattered [legNode 0, totalNode 1]).Feeds .position (legNode 0) (totalNode 1) :=
    leg_feeds_total (by simp) (by simp)
  have hended := (producer_ended_iff_registered hm rfl hunderway rfl hfeeds).1.2 (by decide)
  exact ⟨_, hm, _, _, _, _, _, _, hunderway, rfl, hfeeds, hended⟩

/-- Nothing runs in a circle here, but the sum is dispatched before what it adds up, and so it fails. -/
theorem total_dispatched_before_leg :
    ∃ m, Blueprint.build { registrations := [total, leg] } = .ok m ∧
      (∀ k n, ¬ Relation.TransGen (m.Feeds k) n n) ∧
      ∃ jobs g past r j a p', Underway sampleSetting m.schedule (sampleProgress 2) jobs g past r ∧
        r.nextJob? = some j ∧ m.Feeds .position a j.node ∧
        r.state.tracker.state? a.id = some .notStarted ∧
        runGraphs .single sampleSetting m.schedule (sampleProgress 2) = (.ok (), p') ∧
        p'.state.cancelled = false ∧ p'.state.tracker.state? j.node.id = some .failed := by
  have hacyclic : ∀ k n, ¬ Relation.TransGen ((scattered [totalNode 0, legNode 1]).Feeds k) n n := by
    have hedge : ∀ {k a b}, (scattered [totalNode 0, legNode 1]).Feeds k a b →
        a = legNode 1 ∧ b = totalNode 0 := by
      rintro k a b ⟨ha, hb, hvalue⟩
      have ha := (mem_scattered.1 ha).1
      have hb := (mem_scattered.1 hb).1
      simp only [List.mem_cons, List.not_mem_nil, or_false] at ha hb
      rcases ha with rfl | rfl <;> rcases hb with rfl | rfl
      · exact absurd hvalue (by decide)
      · exact absurd hvalue (by decide)
      · exact ⟨rfl, rfl⟩
      · exact absurd hvalue (by decide)
    intro k n hcircle
    obtain ⟨c, hfirst, -⟩ := Relation.TransGen.head'_iff.1 hcircle
    obtain ⟨c', -, hlast⟩ := Relation.TransGen.tail'_iff.1 hcircle
    have hid := congrArg (·.id.index) ((hedge hfirst).1.symm.trans (hedge hlast).2)
    simp [legNode, totalNode, Node.make] at hid
  exact ⟨scattered [totalNode 0, legNode 1], rfl, hacyclic, [], _, {}, _, _, legNode 1, _, .inside rfl .start, rfl,
    leg_feeds_total (by simp) (by simp), rfl, rfl, rfl, rfl⟩

end Session

end CalcCycle
