import CalcCycle.Proofs.Cycle.Lifecycle
import CalcCycle.Proofs.Execution.Hearing

/-! The whole way of a cycle through its graphs, also where a graph ends it with a fatal failure. Every graph
that is begun is run until nothing of it is under way any more, so what its jobs have left behind, and what
has been heard of them, is known node by node at the end of the cycle. -/

namespace CalcCycle

/-- A graph that a cycle has begun, with the run of the graph at its end. -/
structure Passage where
  graph : Graph
  past : History
  run : GraphRun

/-- What is heard of a graph, where `body` is heard between its start and its end. -/
structure Tale where
  graph : Graph
  body : List Event

def Tale.events (a : Tale) : List Event :=
  .graphStarted a.graph.target a.graph.nodes.length :: a.body ++ [.graphCompleted a.graph.target]

/-- All jobs that have been dispatched. -/
def Passage.dispatched (runs : List Passage) : List Job := runs.flatMap (·.past.dispatched)

/-- All jobs that have been broken off. -/
def Passage.broken (runs : List Passage) : List Job := runs.flatMap (·.past.broken)

theorem Tale.hearing_events (a : Tale) (id : NodeId) : hearing id a.events = hearing id a.body := by
  simp [Tale.events, hearing, Event.node?]

theorem Node.Left.append_left {d d' b b' : List Job} {n : Node} {st : NodeState} (h : n.Left d b st)
    (hd : n ∉ d'.map (·.node)) (hb : n ∉ b'.map (·.node)) : n.Left (d ++ d') (b ++ b') st where
  notStarted_iff := by rw [List.map_append, List.mem_append, or_iff_left hd, h.notStarted_iff]
  executing_iff := by rw [List.map_append, List.mem_append, or_iff_left hb, h.executing_iff]

theorem Node.Left.append_right {d d' b b' : List Job} {n : Node} {st : NodeState} (h : n.Left d' b' st)
    (hd : n ∉ d.map (·.node)) (hb : n ∉ b.map (·.node)) : n.Left (d ++ d') (b ++ b') st where
  notStarted_iff := by rw [List.map_append, List.mem_append, or_iff_right hd, h.notStarted_iff]
  executing_iff := by rw [List.map_append, List.mem_append, or_iff_right hb, h.executing_iff]

/-- The run of a graph does not begin nodes of other graphs. -/
theorem GraphRun.Heard.news {w : RunSetting} {g : Graph} {k : Nat} {s : RunState} {body : List Event}
    {past : History} {r : GraphRun} (h : Heard w g s body past r) (ho : Orderly g k past r) {rest : List Graph}
    (hapart : ∀ a ∈ rest, g.Separate a)
    (hnew : ∀ a ∈ rest, ∀ n ∈ a.nodes, s.tracker.state? n.id = some .notStarted) :
    ∀ a ∈ rest, ∀ n ∈ a.nodes, (r.closed w g).state.tracker.state? n.id = some .notStarted := by
  intro a ha n hn
  refine (h.others n.id (ho.notMem_dispatched ?_)).1.trans (hnew a ha n hn)
  exact fun m hm => (hapart a ha m hm n hn).1

namespace Session

/-- A cycle that runs the graphs `gs` from `p` on has come to `p'`, and the graphs it has begun are those of
`runs`. It goes on until it finds itself cancelled or a graph fails. -/
inductive Passes (w : RunSetting) :
    List Graph → Progress → List Passage → Except Failure Unit → Progress → Prop
  | ended {p} : Passes w [] p [] (.ok ()) p
  | cut {g rest p} (cancelled : p.state.cancelled = true) : Passes w (g :: rest) p [] (.ok ()) p
  | failed {g rest p past r e} (going : p.state.cancelled = false)
    (run : GraphRun.Reached (fun _ => True) w (.start w g p.state p.lastJob) past r)
    (done : r.isDone = true) (failure : (r.closed w g).result = .error e) :
    Passes w (g :: rest) p [⟨g, past, r⟩] (.error e) ⟨(r.closed w g).state, r.lastJob, p.reports⟩
  | graph {g rest p past r report runs outcome p'} (going : p.state.cancelled = false)
    (run : GraphRun.Reached (fun _ => True) w (.start w g p.state p.lastJob) past r)
    (done : r.isDone = true) (ok : (r.closed w g).result = .ok report)
    (next : Passes w rest ⟨(r.closed w g).state, r.lastJob, p.reports ++ [report]⟩ runs outcome p') :
    Passes w (g :: rest) p (⟨g, past, r⟩ :: runs) outcome p'

variable {w : RunSetting} {gs : List Graph} {p p' : Progress} {runs : List Passage}
  {outcome : Except Failure Unit}

theorem runGraphs_passes {pool : WorkerPool} (hpool : pool.Completes fun _ => True)
    (hgs : ∀ g ∈ gs, g.Accepted) (p : Progress) :
    ∃ runs, Passes w gs p runs (runGraphs pool w gs p).1 (runGraphs pool w gs p).2 := by
  induction gs generalizing p with
  | nil => exact ⟨[], .ended⟩
  | cons g rest ih =>
    obtain ⟨hg, hrest⟩ := List.forall_mem_cons.1 hgs
    rw [runGraphs]
    split_ifs with hcancelled
    · exact ⟨[], .cut hcancelled⟩
    obtain ⟨hdone, past, hrun⟩ := hpool w g p.state p.lastJob hg
    have hgoing : p.state.cancelled = false := by simpa using hcancelled
    set r := pool.drive w (.start w g p.state p.lastJob)
    have hconduct : GraphRun.conduct pool w g p.state p.lastJob =
        ((r.closed w g).result, (r.closed w g).state, r.lastJob) := rfl
    rw [hconduct]
    cases hresult : (r.closed w g).result with
    | error e => exact ⟨_, .failed hgoing hrun hdone hresult⟩
    | ok report =>
      obtain ⟨runs, hpasses⟩ := ih hrest ⟨(r.closed w g).state, r.lastJob, p.reports ++ [report]⟩
      exact ⟨_, .graph hgoing hrun hdone hresult hpasses⟩

/-- The graphs that are begun are the first ones. -/
theorem Passes.graphs (h : Passes w gs p runs outcome p') : runs.map (·.graph) <+: gs := by
  induction h with
  | ended => exact List.prefix_refl _
  | cut | failed => simp
  | graph _ _ _ _ _ ih => exact (List.prefix_cons_inj _).2 ih

/-- A cycle fails if a job has been broken off, and else it does not. -/
theorem Passes.outcome_ok_iff (hgs : ∀ g ∈ gs, g.Accepted) (h : Passes w gs p runs outcome p') :
    outcome = .ok () ↔ Passage.broken runs = [] := by
  induction h with
  | ended | cut => exact iff_of_true rfl rfl
  | @failed g rest p past r e going run done failure =>
    have ho := run.orderly (hgs g List.mem_cons_self).wellFormed
    refine iff_of_false nofun fun hbroken => ?_
    have hnone : r.fatal = none := (ho.fatal_eq_none_iff done).2 (by simpa [Passage.broken] using hbroken)
    have hsome := ho.fatal_of_error (hgs g List.mem_cons_self).wellFormed done failure
    cases hnone.symm.trans hsome
  | @graph g rest p past r report runs outcome p' going run done ok next ih =>
    have ho := run.orderly (hgs g List.mem_cons_self).wellFormed
    have hbroken := (ho.fatal_eq_none_iff done).1 (GraphRun.fatal_of_result ok)
    rw [ih fun a ha => hgs a (List.mem_cons_of_mem _ ha)]
    simp [Passage.broken, hbroken]

/-- What can be said when a cycle has come through graphs from the state `s` to the state `s'`. -/
structure Account (contain : Bool) (gs : List Graph) (s : RunState) (runs : List Passage) (tales : List Tale)
    (s' : RunState) : Prop where
  events : s'.events = s.events ++ tales.flatMap Tale.events
  graphs : tales.map (·.graph) = runs.map (·.graph)
  among : ∀ a ∈ tales, a.graph ∈ gs
  bodies : ∀ a ∈ tales, ∀ e ∈ a.body, ∃ n ∈ a.graph.nodes, e.node? = some n.id
  turns : ∀ a ∈ tales, GraphRun.InTurn a.graph a.body
  nodes : ∀ g ∈ gs, ∀ n ∈ g.nodes, ∃ st job, s'.tracker.state? n.id = some st ∧
    hearing n.id (tales.flatMap Tale.events) = st.tale n.id job ∧
    n.Left (Passage.dispatched runs) (Passage.broken runs) st
  elsewhere : ∀ id, (∀ g ∈ gs, ∀ n ∈ g.nodes, n.id ≠ id) → s'.tracker.state? id = s.tracker.state? id
  size : s'.tracker.size = s.tracker.size
  dispatched : ∀ j ∈ Passage.dispatched runs, ∃ g ∈ gs, j.node ∈ g.nodes
  broken : ∀ j ∈ Passage.broken runs, j.node ∈ (Passage.dispatched runs).map (·.node) ∧
    ∃ e, j.phase = .finished (.error e) ∧ j.node.BrokenBy contain e
  broken_nodup : ((Passage.broken runs).map (·.node.id)).Nodup

namespace Account
variable {contain : Bool} {s s' : RunState} {tales : List Tale}

/-- Where no graph is begun. -/
theorem nil (hnew : ∀ g ∈ gs, ∀ n ∈ g.nodes, s.tracker.state? n.id = some .notStarted) :
    Account contain gs s [] [] s where
  events := by simp
  graphs := rfl
  among := List.forall_mem_nil _
  bodies := List.forall_mem_nil _
  turns := List.forall_mem_nil _
  nodes g hg n hn := by
    refine ⟨.notStarted, 0, hnew g hg n hn, rfl, ?_, ?_⟩
    · exact iff_of_true rfl List.not_mem_nil
    · exact iff_of_false (by decide) List.not_mem_nil
  elsewhere _ _ := rfl
  size := rfl
  dispatched := List.forall_mem_nil _
  broken := List.forall_mem_nil _
  broken_nodup := List.nodup_nil

/-- Nothing is heard of a node of another graph. -/
theorem hearing_eq_nil (h : Account contain gs s runs tales s') {id : NodeId}
    (hid : ∀ g ∈ gs, ∀ n ∈ g.nodes, n.id ≠ id) : hearing id (tales.flatMap Tale.events) = [] := by
  apply CalcCycle.hearing_eq_nil
  intro e he hnode
  obtain ⟨a, ha, he⟩ := List.mem_flatMap.1 he
  have hmem := mem_hearing.2 ⟨he, hnode⟩
  rw [a.hearing_events] at hmem
  obtain ⟨n, hn, hnode'⟩ := h.bodies a ha e (mem_hearing.1 hmem).1
  rw [hnode] at hnode'
  exact hid a.graph (h.among a ha) n hn (Option.some.inj hnode').symm

theorem broken_among (h : Account contain gs s runs tales s') {j : Job} (hj : j ∈ Passage.broken runs) :
    ∃ g ∈ gs, j.node ∈ g.nodes := by
  obtain ⟨i, hi, hnode⟩ := List.mem_map.1 (h.broken j hj).1
  rw [← hnode]
  exact h.dispatched i hi

variable {g : Graph} {rest : List Graph} {k : Nat} {past : History} {r : GraphRun} {body : List Event}

/-- A node of the first graph, which the other graphs leave alone. -/
theorem first (hapart : ∀ a ∈ rest, g.Separate a)
    (h : Account contain rest (r.closed w g).state runs tales s') {n : Node} (hn : n ∈ g.nodes)
    {st : NodeState} {job : Nat} (hstate : r.state.tracker.state? n.id = some st)
    (hheard : hearing n.id body = st.tale n.id job) (hleft : n.Left past.dispatched past.broken st) :
    ∃ st job, s'.tracker.state? n.id = some st ∧
      hearing n.id ((⟨g, body⟩ :: tales : List Tale).flatMap Tale.events) = st.tale n.id job ∧
      n.Left (Passage.dispatched (⟨g, past, r⟩ :: runs)) (Passage.broken (⟨g, past, r⟩ :: runs)) st := by
  have hothers : ∀ a ∈ rest, ∀ m ∈ a.nodes, m.id ≠ n.id := fun a ha m hm => (hapart a ha n hn m hm).1.symm
  refine ⟨st, job, (h.elsewhere n.id hothers).trans hstate, ?_, hleft.append_left ?_ ?_⟩
  · rw [List.flatMap_cons, hearing_append, Tale.hearing_events, hheard, h.hearing_eq_nil hothers, List.append_nil]
  · intro hmem
    obtain ⟨j, hj, rfl⟩ := List.mem_map.1 hmem
    obtain ⟨a, ha, hj⟩ := h.dispatched j hj
    exact hothers a ha _ hj rfl
  · intro hmem
    obtain ⟨j, hj, rfl⟩ := List.mem_map.1 hmem
    obtain ⟨a, ha, hj⟩ := h.broken_among hj
    exact hothers a ha _ hj rfl

/-- A node of the other graphs, which the first graph leaves alone. -/
theorem later (hapart : ∀ a ∈ rest, g.Separate a) (ho : GraphRun.Orderly g k past r)
    (hheard : GraphRun.Heard w g s body past r)
    (h : Account contain rest (r.closed w g).state runs tales s') {a : Graph} (ha : a ∈ rest) {n : Node}
    (hn : n ∈ a.nodes) :
    ∃ st job, s'.tracker.state? n.id = some st ∧
      hearing n.id ((⟨g, body⟩ :: tales : List Tale).flatMap Tale.events) = st.tale n.id job ∧
      n.Left (Passage.dispatched (⟨g, past, r⟩ :: runs)) (Passage.broken (⟨g, past, r⟩ :: runs)) st := by
  have hfirst : ∀ m ∈ g.nodes, m.id ≠ n.id := fun m hm => (hapart a ha m hm n hn).1
  obtain ⟨st, job, hstate, htale, hleft⟩ := h.nodes a ha n hn
  refine ⟨st, job, hstate, ?_, hleft.append_right ?_ ?_⟩
  · have hnone : hearing n.id body = [] := by
      apply CalcCycle.hearing_eq_nil
      intro e he hnode
      obtain ⟨m, hm, hnode'⟩ := hheard.bodies ho he
      rw [hnode] at hnode'
      exact hfirst m hm (Option.some.inj hnode').symm
    rw [List.flatMap_cons, hearing_append, Tale.hearing_events, hnone, htale, List.nil_append]
  · exact fun hmem => hfirst n (ho.dispatched_mem hmem).1 rfl
  · intro hmem
    obtain ⟨j, hj, hnode⟩ := List.mem_map.1 hmem
    have hmem := ho.broken_node_mem hj
    rw [hnode] at hmem
    exact hfirst n (ho.dispatched_mem hmem).1 rfl

/-- One graph, and then the others. -/
theorem cons (hg : g.WellFormed) (hapart : ∀ a ∈ rest, g.Separate a)
    (hnew : ∀ n ∈ g.nodes, s.tracker.state? n.id = some .notStarted) (ho : GraphRun.Orderly g k past r)
    (hheard : GraphRun.Heard w g s body past r) (hdone : r.isDone = true)
    (h : Account w.containCrashes rest (r.closed w g).state runs tales s') :
    Account w.containCrashes (g :: rest) s (⟨g, past, r⟩ :: runs) (⟨g, body⟩ :: tales) s' where
  events := by
    rw [h.events]
    simp [GraphRun.closed, RunState.notify, hheard.events, Tale.events]
  graphs := congrArg (g :: ·) h.graphs
  among := List.forall_mem_cons.2 ⟨List.mem_cons_self, fun a ha => List.mem_cons_of_mem _ (h.among a ha)⟩
  bodies := List.forall_mem_cons.2 ⟨fun e he => hheard.bodies ho he, h.bodies⟩
  turns := List.forall_mem_cons.2 ⟨hheard.turns, h.turns⟩
  nodes := by
    refine List.forall_mem_cons.2 ⟨?_, fun a ha n hn => later hapart ho hheard h ha hn⟩
    intro n hn
    obtain ⟨st, job, hstate, htale, hleft⟩ := hheard.left hg hnew ho hdone hn
    exact first hapart h hn hstate htale hleft
  elsewhere id hid := by
    obtain ⟨hfirst, hothers⟩ := List.forall_mem_cons.1 hid
    exact (h.elsewhere id hothers).trans (hheard.others id (ho.notMem_dispatched hfirst)).1
  size := h.size.trans hheard.size
  dispatched j hj := by
    rcases List.mem_append.1 hj with hj | hj
    · exact ⟨g, List.mem_cons_self, (ho.dispatched_mem (List.mem_map_of_mem hj)).1⟩
    · obtain ⟨a, ha, hn⟩ := h.dispatched j hj
      exact ⟨a, List.mem_cons_of_mem _ ha, hn⟩
  broken j hj := by
    rw [Passage.dispatched, List.flatMap_cons, List.map_append, List.mem_append]
    rcases List.mem_append.1 hj with hj | hj
    · exact ⟨Or.inl (ho.broken_node_mem hj), (hheard.of_broken hj).2⟩
    · exact ⟨Or.inr (h.broken j hj).1, (h.broken j hj).2⟩
  broken_nodup := by
    rw [Passage.broken, List.flatMap_cons, List.map_append]
    refine List.nodup_append.2 ⟨ho.broken_nodup, h.broken_nodup, ?_⟩
    intro id hid id' hid' he
    obtain ⟨i, hi, rfl⟩ := List.mem_map.1 hid
    obtain ⟨j, hj, rfl⟩ := List.mem_map.1 hid'
    obtain ⟨a, ha, hn⟩ := h.broken_among hj
    exact (hapart a ha _ (ho.dispatched_mem (ho.broken_node_mem hi)).1 _ hn).1 he

end Account

theorem Passes.account (hgs : ∀ g ∈ gs, g.Accepted) (hseparate : gs.Pairwise Graph.Separate)
    (hnew : ∀ g ∈ gs, ∀ n ∈ g.nodes, p.state.tracker.state? n.id = some .notStarted)
    (h : Passes w gs p runs outcome p') :
    ∃ tales, Account w.containCrashes gs p.state runs tales p'.state := by
  induction h with
  | ended | cut => exact ⟨[], .nil hnew⟩
  | @failed g rest p past r e going run done failure =>
    obtain ⟨hg, -⟩ := List.forall_mem_cons.1 hgs
    obtain ⟨hapart, -⟩ := List.pairwise_cons.1 hseparate
    obtain ⟨hnew, hnews⟩ := List.forall_mem_cons.1 hnew
    have ho := run.orderly hg.wellFormed
    obtain ⟨body, hheard⟩ := run.heard hg.wellFormed hnew
    exact ⟨_, .cons hg.wellFormed hapart hnew ho hheard done (.nil (hheard.news ho hapart hnews))⟩
  | @graph g rest p past r report runs outcome p' going run done ok next ih =>
    obtain ⟨hg, hrest⟩ := List.forall_mem_cons.1 hgs
    obtain ⟨hapart, hseparate⟩ := List.pairwise_cons.1 hseparate
    obtain ⟨hnew, hnews⟩ := List.forall_mem_cons.1 hnew
    have ho := run.orderly hg.wellFormed
    obtain ⟨body, hheard⟩ := run.heard hg.wellFormed hnew
    obtain ⟨tales, haccount⟩ := ih hrest hseparate (hheard.news ho hapart hnews)
    exact ⟨_, .cons hg.wellFormed hapart hnew ho hheard done haccount⟩

end Session

/-! ### From the creation on -/

/-- Nothing of the model has been run in the cycle. -/
structure Cycle.Unbegun (m : Model) (c : Cycle) : Prop where
  model : c.model = m
  tracker : c.tracker = .start m.nodeCount
  events : c.events = []
  nodeCount : c.stats.nodeCount = m.nodeCount

namespace Session
variable {σ : Type} {c : Context σ} {s : Session σ} {m : Model}

theorem perform_unbegun {request : Request} {op : Operation} (hop : request.operation? = some op)
    (h : s.cycle.stage.rank ≤ Stage.inputsPrepared.rank → s.cycle.Unbegun m)
    (hstage : (s.perform c request).2.cycle.stage.rank ≤ Stage.inputsPrepared.rank) :
    (s.perform c request).2.cycle.Unbegun m := by
  cases request with
  | prepare now =>
    simp only [perform] at hstage ⊢
    have hcases := s.prepare_cases c now
    generalize s.prepare c now = after at hcases hstage
    cases hcases with
    | refused => exact h hstage
    | noSnapshot => exact h hstage
    | brokenOff stage answer opened | done stage answer opened =>
      have hnew := h (by simp [stage, Stage.rank])
      cases opened
      exact ⟨hnew.model, hnew.tracker, hnew.events, hnew.nodeCount⟩
  | execute =>
    simp only [perform] at hstage ⊢
    have hcases := s.execute_cases c
    generalize s.execute c = after at hcases hstage
    cases hcases with
    | refused => exact h hstage
    | ran => simp [started, absorb, Stage.rank] at hstage
  | populate now =>
    simp only [perform] at hstage ⊢
    have hcases := s.populate_cases now
    generalize s.populate now = after at hcases hstage
    cases hcases with
    | refused | unread => exact h hstage
    | filled => simp [Stage.rank] at hstage
  | release =>
    have hreleased := s.release_stage c
    simp only [perform] at hstage
    simp [hreleased, Stage.rank] at hstage
  | run now => cases hop

/-- Until its graphs are run, a cycle is as it was created, whatever has been called. -/
theorem Lives.unbegun {others : World σ → World σ → Prop} {world : World σ} {id : Uuid} {view : String}
    {results : Results} {past : List (Operation × Stage)}
    (h : Lives c others ⟨world, Cycle.create id view m results⟩ past s)
    (hstage : s.cycle.stage.rank ≤ Stage.inputsPrepared.rank) : s.cycle.Unbegun m := by
  induction h with
  | start => exact ⟨rfl, rfl, rfl, rfl⟩
  | call before operation ih => exact perform_unbegun operation ih hstage
  | cancel before ih =>
    have hnew := ih hstage
    exact ⟨hnew.model, hnew.tracker, hnew.events, hnew.nodeCount⟩
  | elsewhere before change ih => exact ih hstage

/-- The execution of a cycle over the model `m` that has its inputs: its course, and what can be said at its
end. -/
structure Executed (c : Context σ) (m : Model) (s : Session σ) (runs : List Passage) (tales : List Tale) :
    Prop where
  course : ∃ token handle p, s.cycle.snapshot = some token ∧ s.cycle.cache = some handle ∧
    Passes (s.setting c token handle) m.schedule s.progress runs (s.execute c).1 p ∧
    (s.execute c).2 = s.started.absorb p
  begun : runs.map (·.graph) <+: m.schedule
  outcome : (s.execute c).1 = .ok () ↔ Passage.broken runs = []
  account : Account c.config.containCrashes m.schedule s.progress.state runs tales
    (s.execute c).2.progress.state

theorem Lives.executed {graphs : List Graph} (hm : Model.ofGraphs graphs = .ok m)
    (hgs : ∀ g ∈ graphs, g.Accepted) (hpool : c.pool.Completes fun _ => True)
    {others : World σ → World σ → Prop} {world : World σ} {id : Uuid} {view : String}
    {results : Results} {past : List (Operation × Stage)}
    (h : Lives c others ⟨world, Cycle.create id view m results⟩ past s)
    (hstage : s.cycle.stage = .inputsPrepared) : ∃ runs tales, Executed c m s runs tales := by
  have hnew := h.unbegun (by simp [hstage])
  obtain ⟨token, handle, hsnapshot, hcache, -⟩ := (h.proceeds ⟨rfl, nofun⟩).equipped.acquired (by simp [hstage])
  have hwf := (Model.ofGraphs_ok hm).2
  have haccepted := Model.accepted_schedule hm hgs
  obtain ⟨runs, hpasses⟩ := runGraphs_passes (w := s.setting c token handle) hpool haccepted s.progress
  have hstates : ∀ g ∈ m.schedule, ∀ n ∈ g.nodes,
      s.progress.state.tracker.state? n.id = some .notStarted := by
    intro g hg n hn
    rw [show s.progress.state.tracker = s.cycle.tracker from rfl, hnew.tracker]
    exact Tracker.state?_start (hwf.bound g (Model.mem_schedule.1 hg) n hn)
  obtain ⟨tales, haccount⟩ := hpasses.account haccepted hwf.separate_schedule hstates
  have houtcome := hpasses.outcome_ok_iff haccepted
  have hexecute := execute_eq (c := c) hstage hsnapshot hcache
  rw [hnew.model] at hexecute
  generalize runGraphs c.pool (s.setting c token handle) m.schedule s.progress = after at *
  refine ⟨runs, tales, ⟨token, handle, after.2, hsnapshot, hcache, ?_, ?_⟩, hpasses.graphs, ?_, ?_⟩
  · rw [hexecute]
    exact hpasses
  · rw [hexecute]
  · rw [hexecute]
    exact houtcome
  · rw [hexecute]
    exact haccount

end Session

end CalcCycle
