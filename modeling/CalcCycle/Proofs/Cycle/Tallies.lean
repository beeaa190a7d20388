import CalcCycle.Proofs.Cycle.Telling
import CalcCycle.Proofs.Execution.Tallies
import CalcCycle.Proofs.Graph.Acceptance
import Mathlib.Algebra.GroupWithZero.Nat

/-! The counters of a cycle agree. The tracker tallies the nodes that end, the nodes keep their states, the
scheduler of each graph counts for its report, and the cycle counts the states at the end. They are kept in
different places and at different times, and where the plans have been executed without a failure they say
the same, also if somebody has cancelled in the middle of a graph. -/

namespace CalcCycle

/-- The graphs that a listener has heard to start, with the numbers of their nodes. -/
def startedGraphs (events : List Event) : List (Target × Nat) :=
  events.filterMap fun
    | .graphStarted t n => some (t, n)
    | _ => none

theorem startedGraphs_append (a b : List Event) : startedGraphs (a ++ b) = startedGraphs a ++ startedGraphs b :=
  List.filterMap_append ..

/-- What is heard of nodes starts no graph. -/
theorem startedGraphs_eq_nil {events : List Event} (h : ∀ e ∈ events, e.node?.isSome = true) :
    startedGraphs events = [] := by
  rw [startedGraphs, List.filterMap_eq_nil_iff]
  intro e he
  have hnode := h e he
  cases e with
  | nodeDispatched | nodeCompleted | graphCompleted => rfl
  | graphStarted => cases hnode

theorem startedGraphs_tales {tales : List Tale} (h : ∀ a ∈ tales, ∀ e ∈ a.body, e.node?.isSome = true) :
    startedGraphs (tales.flatMap Tale.events) = tales.map fun a => (a.graph.target, a.graph.nodes.length) := by
  induction tales with
  | nil => rfl
  | cons a rest ih =>
    obtain ⟨ha, hrest⟩ := List.forall_mem_cons.1 h
    have hevents : startedGraphs a.events = [(a.graph.target, a.graph.nodes.length)] := by
      change _ :: startedGraphs (a.body ++ [.graphCompleted a.graph.target]) = _
      rw [startedGraphs_append, startedGraphs_eq_nil ha]
      rfl
    rw [List.flatMap_cons, startedGraphs_append, hevents, ih hrest]
    rfl

/-- The number of nodes of the graphs. -/
def Graph.size (gs : List Graph) : Nat := (gs.map (·.nodes.length)).sum

theorem Model.nodeCount_eq_size {graphs : List Graph} {m : Model} (h : ofGraphs graphs = .ok m) :
    m.nodeCount = Graph.size m.schedule := by
  rw [(nodes_of_ofGraphs h).1, total_nodes, ← (ofGraphs_ok h).1, Graph.size, ← List.length_flatMap]
  exact (m.schedule_perm.flatMap_right (·.nodes)).length_eq.symm

namespace Session

/-! ### The graphs of a cycle -/

section Passes
variable {w : RunSetting} {gs : List Graph} {p p' : Progress} {runs : List Passage}
  {outcome : Except Failure Unit} {st : NodeState}

theorem Passes.orderly (hgs : ∀ g ∈ gs, g.Accepted) (h : Passes w gs p runs outcome p') :
    ∀ a ∈ runs, ∃ k, GraphRun.Orderly a.graph k a.past a.run := by
  induction h with
  | ended | cut => exact List.forall_mem_nil _
  | failed going run =>
    have hg := (hgs _ List.mem_cons_self).wellFormed
    exact List.forall_mem_cons.2 ⟨⟨_, run.orderly hg⟩, List.forall_mem_nil _⟩
  | graph going run done ok next ih =>
    obtain ⟨hg, hrest⟩ := List.forall_mem_cons.1 hgs
    exact List.forall_mem_cons.2 ⟨⟨_, run.orderly hg.wellFormed⟩, ih hrest⟩

/-- The tracker gains what the schedulers of the graphs have counted. -/
theorem Passes.gains (hgs : ∀ g ∈ gs, g.Accepted) (hst : st.isTerminal = true)
    (h : Passes w gs p runs outcome p') :
    p.state.tracker.Gains p'.state.tracker st (runs.map (·.run.taken st)).sum := by
  induction h with
  | ended | cut => exact .refl _ _
  | failed going run done =>
    have hg := (hgs _ List.mem_cons_self).wellFormed
    have hgains := (run.tallied hg hst).done (run.orderly hg) done
    rw [List.map_singleton, List.sum_singleton]
    exact hgains
  | graph going run done ok next ih =>
    obtain ⟨hg, hrest⟩ := List.forall_mem_cons.1 hgs
    have hgains := (run.tallied hg.wellFormed hst).done (run.orderly hg.wellFormed) done
    rw [List.map_cons, List.sum_cons]
    exact hgains.trans (ih hrest)

/-- Where no graph fails, there is a report on each graph that has been begun. -/
theorem Passes.reports (hgs : ∀ g ∈ gs, g.Accepted) (h : Passes w gs p runs outcome p')
    (hok : outcome = .ok ()) : p'.reports = p.reports ++ runs.map (·.run.summary) := by
  induction h with
  | ended | cut => exact (List.append_nil _).symm
  | failed => cases hok
  | graph going run done ok next ih =>
    obtain ⟨hg, hrest⟩ := List.forall_mem_cons.1 hgs
    have ho := run.orderly hg.wellFormed
    rw [ho.closed_result hg.wellFormed done (GraphRun.fatal_of_result ok)] at ok
    cases ok
    rw [ih hrest hok, List.append_assoc]
    rfl

/-- Where no graph fails and nobody cancels, all graphs are begun. -/
theorem Passes.complete (h : Passes w gs p runs outcome p') (hok : outcome = .ok ())
    (hgoing : p'.state.cancelled = false) : runs.map (·.graph) = gs := by
  induction h with
  | ended => rfl
  | cut cancelled => simp [cancelled] at hgoing
  | failed => cases hok
  | graph _ _ _ _ _ ih => exact congrArg (_ :: ·) (ih hok hgoing)

end Passes

/-! ### The reports of a new cycle -/

variable {σ : Type} {c : Context σ} {s : Session σ} {m : Model} {runs : List Passage} {tales : List Tale}

theorem perform_reports {request : Request} {op : Operation} (hop : request.operation? = some op)
    (hstage : (s.perform c request).2.cycle.stage.rank ≤ Stage.inputsPrepared.rank) :
    (s.perform c request).2.cycle.reports = s.cycle.reports := by
  cases request with
  | prepare now =>
    simp only [perform]
    have hcases := s.prepare_cases c now
    generalize s.prepare c now = after at hcases
    cases hcases with
    | refused | noSnapshot => rfl
    | brokenOff stage answer opened | done stage answer opened =>
      cases opened
      rfl
  | execute =>
    simp only [perform] at hstage ⊢
    have hcases := s.execute_cases c
    generalize s.execute c = after at hcases hstage
    cases hcases with
    | refused => rfl
    | ran => simp [started, absorb, Stage.rank] at hstage
  | populate now =>
    simp only [perform]
    have hcases := s.populate_cases now
    generalize s.populate now = after at hcases
    cases hcases with
    | refused | unread | filled => rfl
  | release =>
    simp only [perform]
    have hcases := s.release_cases c
    generalize s.release c = after at hcases
    cases hcases with
    | refused | nothing | back => rfl
  | run now => cases hop

/-- Until its graphs are run, a cycle has no reports. -/
theorem Lives.unreported {others : World σ → World σ → Prop} {world : World σ} {id : Uuid} {view : String}
    {results : Results} {past : List (Operation × Stage)}
    (h : Lives c others ⟨world, Cycle.create id view m results⟩ past s)
    (hstage : s.cycle.stage.rank ≤ Stage.inputsPrepared.rank) : s.cycle.reports = [] := by
  induction h with
  | start => rfl
  | @call past s request op before operation ih =>
    have hforward := (perform_proceeds (c := c) (before.proceeds ⟨rfl, nofun⟩).equipped operation).forward
    rw [perform_reports operation hstage]
    exact ih (Nat.le_trans hforward hstage)
  | cancel before ih => exact ih hstage
  | elsewhere before change ih => exact ih hstage

/-- Plans are executed without a failure only where the inputs have been prepared. -/
theorem stage_of_execute (h : (s.execute c).1 = .ok ()) : s.cycle.stage = .inputsPrepared := by
  have hcases := s.execute_cases c
  generalize s.execute c = after at hcases h
  cases hcases with
  | refused => cases h
  | ran stage => exact stage

/-! ### All counters -/

end Session

/-- The counters of a cycle over the model agree when its plans have been executed. -/
structure Cycle.Agrees (m : Model) (cycle : Cycle) : Prop where
  executed : cycle.stats.executed = cycle.tracker.executedTally ∧
    cycle.tracker.executedTally = cycle.tracker.executedNodes.length ∧
    cycle.tracker.executedNodes.length = cycle.tracker.counts.executed ∧
    cycle.tracker.counts.executed = (cycle.reports.map (·.executed)).sum
  failed : cycle.stats.failed = cycle.tracker.failedTally ∧
    cycle.tracker.failedTally = cycle.tracker.failedNodes.length ∧
    cycle.tracker.failedNodes.length = cycle.tracker.counts.failed ∧
    cycle.tracker.counts.failed = (cycle.reports.map (·.failed)).sum
  /-- There are reports on the first graphs of the schedule, which are those that were started. -/
  reports : cycle.reports.map (fun r => (r.target, r.nodeCount)) =
    (m.schedule.take cycle.reports.length).map fun g => (g.target, g.nodes.length)
  started : startedGraphs cycle.events = cycle.reports.map fun r => (r.target, r.nodeCount)
  notStarted : cycle.stats.notStarted =
    (cycle.reports.map (·.notDispatched)).sum + Graph.size (m.schedule.drop cycle.reports.length)
  total : cycle.stats.executed + cycle.stats.failed + cycle.stats.notStarted = m.nodeCount
  /-- Kind by kind, and within a kind in the order of the model. -/
  complete : cycle.cancelled = false → cycle.reports.length = m.graphs.length ∧
    cycle.reports.map (·.target) =
      TargetKind.executionOrder.flatMap fun k => (m.graphs.filter (·.target.kind == k)).map (·.target)

namespace Session
variable {σ : Type} {c : Context σ} {s : Session σ} {m : Model} {runs : List Passage} {tales : List Tale}

/-- What the graphs have come to adds up to their nodes. -/
theorem size_eq {runs : List Passage} (h : ∀ a ∈ runs, ∃ k, GraphRun.Orderly a.graph k a.past a.run) :
    (runs.map (·.run.summary.executed)).sum + (runs.map (·.run.summary.failed)).sum +
      (runs.map (·.run.summary.notDispatched)).sum = Graph.size (runs.map (·.graph)) := by
  induction runs with
  | nil => rfl
  | cons a rest ih =>
    obtain ⟨⟨k, ho⟩, hrest⟩ := List.forall_mem_cons.1 h
    have hsum := ih hrest
    have hle := ho.resolved_le
    have hnot : a.run.summary.notDispatched = a.graph.nodes.length - a.run.resolved := by
      rw [← ho.graph]
      rfl
    have hresolved : a.run.resolved = a.run.summary.executed + a.run.summary.failed := rfl
    simp only [Graph.size, List.map_cons, List.sum_cons] at hsum ⊢
    omega

namespace Executed

theorem orderly (h : Executed c m s runs tales) (hgs : ∀ g ∈ m.schedule, g.Accepted) :
    ∀ a ∈ runs, ∃ k, GraphRun.Orderly a.graph k a.past a.run := by
  obtain ⟨token, handle, p, -, -, hpasses, -⟩ := h.course
  exact hpasses.orderly hgs

theorem stats_eq (h : Executed c m s runs tales) : (s.execute c).2.cycle.stats =
    countStates (s.execute c).2.cycle.tracker (s.execute c).2.cycle.reports s.cycle.stats := by
  obtain ⟨token, handle, p, -, -, -, hafter⟩ := h.course
  rw [hafter]
  rfl

theorem reports_eq (h : Executed c m s runs tales) (hgs : ∀ g ∈ m.schedule, g.Accepted)
    (hnone : s.cycle.reports = []) (hok : (s.execute c).1 = .ok ()) :
    (s.execute c).2.cycle.reports = runs.map (·.run.summary) := by
  obtain ⟨token, handle, p, -, -, hpasses, hafter⟩ := h.course
  have hreports := hpasses.reports hgs hok
  rw [show s.progress.reports = s.cycle.reports from rfl, hnone, List.nil_append] at hreports
  rw [hafter]
  exact hreports

/-- The reports are on the graphs that were begun. -/
theorem summaries (h : Executed c m s runs tales) (hgs : ∀ g ∈ m.schedule, g.Accepted) :
    (runs.map (·.run.summary)).map (fun r => (r.target, r.nodeCount)) =
      (runs.map (·.graph)).map fun g => (g.target, g.nodes.length) := by
  rw [List.map_map, List.map_map]
  refine List.map_congr_left fun a ha => ?_
  obtain ⟨k, ho⟩ := h.orderly hgs a ha
  simp only [Function.comp_apply, ← ho.graph]
  rfl

theorem complete (h : Executed c m s runs tales) (hok : (s.execute c).1 = .ok ())
    (hgoing : (s.execute c).2.cycle.cancelled = false) : runs.map (·.graph) = m.schedule := by
  obtain ⟨token, handle, p, -, -, hpasses, hafter⟩ := h.course
  rw [hafter] at hgoing
  exact hpasses.complete hok hgoing

/-- The tracker tallies what the schedulers have counted, and so many nodes stand in the state. -/
theorem tally_eq (h : Executed c m s runs tales) (hgs : ∀ g ∈ m.schedule, g.Accepted) (hnew : s.cycle.Unbegun m)
    (st : NodeState) (hst : st.isTerminal = true) :
    (s.execute c).2.cycle.tracker.tally st = (runs.map (·.run.taken st)).sum ∧
      (s.execute c).2.cycle.tracker.states.count st = (runs.map (·.run.taken st)).sum := by
  obtain ⟨token, handle, p, -, -, hpasses, hafter⟩ := h.course
  have hgains := hpasses.gains hgs hst
  rw [show s.progress.state.tracker = s.cycle.tracker from rfl, hnew.tracker] at hgains
  rw [hafter]
  exact hgains.of_start hst

/-- The states of the nodes are all there is to count, since no node is executing any more. -/
theorem total_eq (h : Executed c m s runs tales) (hnew : s.cycle.Unbegun m) (hok : (s.execute c).1 = .ok ()) :
    (s.execute c).2.cycle.stats.executed + (s.execute c).2.cycle.stats.failed +
      (s.execute c).2.cycle.stats.notStarted = m.nodeCount := by
  have hexecuting := (h.executing_perm hnew).length_eq
  rw [h.outcome.1 hok, Tracker.length_nodesIn, List.map_nil, List.length_nil] at hexecuting
  have hsize : (s.execute c).2.cycle.tracker.states.length = m.nodeCount := by
    have hsame : (s.execute c).2.cycle.tracker.size = s.cycle.tracker.size := h.account.size
    rw [hnew.tracker] at hsame
    simpa [Tracker.size, Tracker.start] using hsame
  have hsum := StateCounts.add_ofStates (s.execute c).2.cycle.tracker.states
  rw [hexecuting, hsize] at hsum
  rw [h.stats_eq]
  exact hsum

theorem executed_eq (h : Executed c m s runs tales) (hgs : ∀ g ∈ m.schedule, g.Accepted)
    (hnew : s.cycle.Unbegun m) {n : Nat} (hn : (runs.map (·.run.executed)).sum = n) :
    (s.execute c).2.cycle.stats.executed = n ∧ (s.execute c).2.cycle.tracker.executedTally = n ∧
      (s.execute c).2.cycle.tracker.executedNodes.length = n ∧
      (s.execute c).2.cycle.tracker.counts.executed = n := by
  obtain ⟨htally, hstates⟩ := h.tally_eq hgs hnew .executed rfl
  rw [h.stats_eq, Tracker.executedNodes, Tracker.length_nodesIn]
  simp only [countStates, Tracker.counts_eq]
  exact ⟨hstates.trans hn, htally.trans hn, hstates.trans hn, hstates.trans hn⟩

theorem failed_eq (h : Executed c m s runs tales) (hgs : ∀ g ∈ m.schedule, g.Accepted)
    (hnew : s.cycle.Unbegun m) {n : Nat} (hn : (runs.map (·.run.failed)).sum = n) :
    (s.execute c).2.cycle.stats.failed = n ∧ (s.execute c).2.cycle.tracker.failedTally = n ∧
      (s.execute c).2.cycle.tracker.failedNodes.length = n ∧
      (s.execute c).2.cycle.tracker.counts.failed = n := by
  obtain ⟨htally, hstates⟩ := h.tally_eq hgs hnew .failed rfl
  rw [h.stats_eq, Tracker.failedNodes, Tracker.length_nodesIn]
  simp only [countStates, Tracker.counts_eq]
  exact ⟨hstates.trans hn, htally.trans hn, hstates.trans hn, hstates.trans hn⟩

theorem graphs_eq (h : Executed c m s runs tales) : runs.map (·.graph) = m.schedule.take runs.length := by
  have htake := List.prefix_iff_eq_take.1 h.begun
  rwa [List.length_map] at htake

/-- What has not started was not dispatched, or belongs to a graph that was not begun. -/
theorem notStarted_eq {graphs : List Graph} (hm : Model.ofGraphs graphs = .ok m)
    (h : Executed c m s runs tales) (hgs : ∀ g ∈ m.schedule, g.Accepted) (hnew : s.cycle.Unbegun m)
    (hok : (s.execute c).1 = .ok ()) : (s.execute c).2.cycle.stats.notStarted =
      (runs.map (·.run.summary.notDispatched)).sum + Graph.size (m.schedule.drop runs.length) := by
  have hsplit : Graph.size (m.schedule.take runs.length) + Graph.size (m.schedule.drop runs.length) =
      m.nodeCount := by
    rw [Model.nodeCount_eq_size hm, Graph.size, Graph.size, ← List.sum_append, ← List.map_append,
      List.take_append_drop, Graph.size]
  have hbegun := size_eq (h.orderly hgs)
  have htotal := h.total_eq hnew hok
  rw [(h.executed_eq hgs hnew rfl).1, (h.failed_eq hgs hnew rfl).1] at htotal
  rw [h.graphs_eq] at hbegun
  simp only [GraphRun.summary] at hbegun ⊢
  omega

/-- The listener has heard the graphs start that were begun. -/
theorem started_eq (h : Executed c m s runs tales) (hgs : ∀ g ∈ m.schedule, g.Accepted)
    (hnew : s.cycle.Unbegun m) : startedGraphs (s.execute c).2.cycle.events =
      (runs.map (·.graph)).map fun g => (g.target, g.nodes.length) := by
  have hbodies : ∀ a ∈ tales, ∀ e ∈ a.body, e.node?.isSome = true := by
    intro a ha e he
    obtain ⟨n, -, hn⟩ := h.account.bodies a ha e he
    rw [hn]
    rfl
  rw [(h.tells hgs hnew).events, startedGraphs_tales hbodies, ← h.account.graphs, List.map_map]
  rfl

end Executed

/-- In every execution of a new cycle over an accepted model that goes well all counters agree, whatever turns
the jobs have taken and whenever somebody has cancelled. -/
theorem counters_agree {graphs : List Graph} (hm : Model.ofGraphs graphs = .ok m) (hgs : ∀ g ∈ graphs, g.Accepted)
    (hpool : c.pool.Completes fun _ => True) (others : World σ → World σ → Prop) (world : World σ) (id : Uuid)
    (view : String) (results : Results) (past : List (Operation × Stage))
    (h : Lives c others ⟨world, Cycle.create id view m results⟩ past s) (hok : (s.execute c).1 = .ok ()) :
    (s.execute c).2.cycle.Agrees m := by
  have hstage := stage_of_execute hok
  have hrank : s.cycle.stage.rank ≤ Stage.inputsPrepared.rank := Nat.le_of_eq (congrArg Stage.rank hstage)
  have hnew := h.unbegun hrank
  have hschedule := Model.accepted_schedule hm hgs
  obtain ⟨runs, tales, hexecuted⟩ := h.executed hm hgs hpool hstage
  have hreports := hexecuted.reports_eq hschedule (h.unreported hrank) hok
  have hlength : (s.execute c).2.cycle.reports.length = runs.length := by rw [hreports, List.length_map]
  have hsum : ∀ count : GraphReport → Nat, (runs.map fun a => count a.run.summary).sum =
      ((s.execute c).2.cycle.reports.map count).sum := by
    intro count
    rw [hreports, List.map_map]
    rfl
  have hpairs := hexecuted.summaries hschedule
  rw [← hreports] at hpairs
  obtain ⟨hstats, htally, hnodes, hcounts⟩ := hexecuted.executed_eq hschedule hnew (hsum (·.executed))
  obtain ⟨hstats', htally', hnodes', hcounts'⟩ := hexecuted.failed_eq hschedule hnew (hsum (·.failed))
  refine ⟨?_, ?_, ?_, ?_, ?_, hexecuted.total_eq hnew hok, ?_⟩
  · exact ⟨hstats.trans htally.symm, htally.trans hnodes.symm, hnodes.trans hcounts.symm, hcounts⟩
  · exact ⟨hstats'.trans htally'.symm, htally'.trans hnodes'.symm, hnodes'.trans hcounts'.symm, hcounts'⟩
  · rw [hpairs, hexecuted.graphs_eq, hlength]
  · rw [hpairs, hexecuted.started_eq hschedule hnew]
  · rw [hlength, ← hsum (·.notDispatched)]
    exact hexecuted.notStarted_eq hm hschedule hnew hok
  · intro hgoing
    have hall := hexecuted.complete hok hgoing
    have htargets := congrArg (List.map Prod.fst) hpairs
    rw [hall, List.map_map, List.map_map] at htargets
    refine ⟨?_, ?_⟩
    · rw [hlength, ← m.schedule_perm.length_eq, ← hall, List.length_map]
    · rw [← List.map_flatMap]
      exact htargets

/-! A cycle that is cancelled by the first calculation it calls, with two more nodes in the same graph and one
in a graph for which it is too late. -/

def halted : Blueprint where
  registrations :=
    [⟨.position "P", relay "Price" "PV" (.values [⟨sampleValue "PV", .text "3"⟩])⟩,
      ⟨.primitive "EUR", relay "Rate" "Curve" (.values [⟨sampleValue "Curve", .text "1"⟩])⟩,
      ⟨.primitive "EUR", relay "Curve" "Price" (.crash none)⟩,
      ⟨.primitive "EUR", relay "Curve" "Risk" (.crash none)⟩]
  liveData := [{ name := "Rate", target := .primitive "EUR" }]

def overMemory : Context MemoryFeed := { config := {}, feed := MemoryFeed.source }

def supplied (m : Model) : Session MemoryFeed := ⟨{ feed := sampleFeed }, Cycle.create ⟨1⟩ "V" m (.empty "V")⟩

theorem halted_agrees :
    ∃ m s, halted.build = .ok m ∧ (supplied m).prepare overMemory 7 = (.ok (), s) ∧
      (s.execute overMemory).1 = .ok () ∧ (s.execute overMemory).2.cycle.Agrees m ∧
      (s.execute overMemory).2.cycle.reports.map (fun r => (r.executed, r.failed, r.notDispatched)) = [(1, 0, 2)] ∧
      (s.execute overMemory).2.cycle.stats.notStarted = 3 := by
  obtain ⟨m, hm⟩ : ∃ m, halted.build = .ok m := ⟨_, rfl⟩
  have hlives : Lives overMemory (fun _ _ => False) (supplied m) _
      ((supplied m).perform overMemory (.prepare 7)).2 := .call .start rfl
  have hagrees := counters_agree (Blueprint.build_steps hm).2 (fun g hg => Blueprint.accepted_of_build hm hg)
    (WorkerPool.single_completes.mono fun _ _ => trivial) _ _ _ _ _ _ hlives (by cases hm; rfl)
  refine ⟨m, _, hm, ?_, ?_, hagrees, ?_, ?_⟩
  all_goals cases hm; rfl

end Session

end CalcCycle
