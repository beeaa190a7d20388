import CalcCycle.Proofs.Cycle.Tallies
import CalcCycle.Proofs.Execution.Halting

/-! A fatal failure in a graph ends the execution of a cycle. The failure is answered, no graph is begun after
that one, and there are reports on the graphs before it only. -/

namespace CalcCycle.Session

section Passes
variable {w : RunSetting} {gs : List Graph} {p p' : Progress} {runs : List Passage}
  {outcome : Except Failure Unit} {e : Failure}

/-- The jobs of a cycle touch their own nodes and the outputs of their nodes. -/
theorem Passes.confined (hgs : ∀ g ∈ gs, g.Accepted) (h : Passes w gs p runs outcome p') :
    RunState.Confined w p.state (Passage.dispatched runs) p'.state := by
  induction h with
  | ended | cut => exact .refl _ _
  | failed going run =>
    have hg := (hgs _ List.mem_cons_self).wellFormed
    exact (run.confined hg).closed.trans (.refl _ _)
  | graph going run done ok next ih =>
    obtain ⟨hg, hrest⟩ := List.forall_mem_cons.1 hgs
    exact (run.confined hg.wellFormed).closed.trans (ih hrest)

theorem Passes.no_failure (h : Passes w gs p runs outcome p') (hok : outcome = .ok ()) :
    ∀ a ∈ runs, a.past.firstFailure = none := by
  induction h with
  | ended | cut => exact List.forall_mem_nil _
  | failed => cases hok
  | graph going run done ok next ih =>
    have hnone := run.fatal_eq.symm.trans (GraphRun.fatal_of_result ok)
    exact List.forall_mem_cons.2 ⟨hnone, ih hok⟩

/-- The last graph that was begun has failed, and the failure is the first one that its scheduler took in. -/
theorem Passes.halted (hgs : ∀ g ∈ gs, g.Accepted) (h : Passes w gs p runs outcome p')
    (he : outcome = .error e) :
    ∃ before a later, runs = before ++ [a] ∧ gs = runs.map (·.graph) ++ later ∧
      (∀ b ∈ before, b.past.firstFailure = none) ∧ a.past.firstFailure = some e ∧
      p'.reports = p.reports ++ before.map (·.run.summary) := by
  induction h with
  | ended | cut => cases he
  | @failed g rest p past r e' going run done failure =>
    cases he
    have hg := (hgs g List.mem_cons_self).wellFormed
    refine ⟨[], _, rest, rfl, rfl, List.forall_mem_nil _, ?_, (List.append_nil _).symm⟩
    exact run.fatal_eq.symm.trans ((run.orderly hg).fatal_of_error hg done failure)
  | @graph g rest p past r report runs outcome p' going run done ok next ih =>
    obtain ⟨hg, hrest⟩ := List.forall_mem_cons.1 hgs
    obtain ⟨before, a, later, rfl, hsplit, hbefore, hfirst, hreports⟩ := ih hrest he
    have hfatal := GraphRun.fatal_of_result ok
    rw [(run.orderly hg.wellFormed).closed_result hg.wellFormed done hfatal] at ok
    cases ok
    refine ⟨_ :: before, a, later, rfl, congrArg (g :: ·) hsplit, ?_, hfirst, ?_⟩
    · exact List.forall_mem_cons.2 ⟨run.fatal_eq.symm.trans hfatal, hbefore⟩
    · rw [hreports, List.append_assoc]
      rfl

/-- A cycle ends with a failure where a scheduler has taken in one, and with the first. -/
theorem Passes.error_iff (hgs : ∀ g ∈ gs, g.Accepted) (h : Passes w gs p runs outcome p') :
    outcome = .error e ↔ ∃ a ∈ runs, a.past.firstFailure = some e := by
  constructor
  · intro he
    obtain ⟨before, a, later, rfl, -, -, hfirst, -⟩ := h.halted hgs he
    exact ⟨a, by simp, hfirst⟩
  · rintro ⟨a, ha, hfirst⟩
    cases houtcome : outcome with
    | ok u =>
      rw [h.no_failure houtcome a ha] at hfirst
      cases hfirst
    | error e' =>
      obtain ⟨before, last, later, rfl, -, hbefore, hlast, -⟩ := h.halted hgs houtcome
      rcases List.mem_append.1 ha with ha | ha
      · rw [hbefore a ha] at hfirst
        cases hfirst
      · rw [List.mem_singleton.1 ha, hlast] at hfirst
        cases hfirst
        rfl

end Passes

variable {σ : Type} {c : Context σ} {s : Session σ} {m : Model} {runs : List Passage} {tales : List Tale}
  {e : Failure}

/-- The execution of a new cycle, in which the graphs of `runs` have been begun, was ended by the failure. -/
structure HaltedBy (c : Context σ) (m : Model) (s : Session σ) (runs : List Passage) (e : Failure) : Prop where
  /-- It is the first failure in the last graph begun. There are reports on the graphs before, and nothing has
  been dispatched of those after. -/
  last : ∃ before a later, runs = before ++ [a] ∧ m.schedule = runs.map (·.graph) ++ later ∧
    (∀ b ∈ before, b.past.firstFailure = none) ∧ a.past.firstFailure = some e ∧
    (s.execute c).2.cycle.reports = before.map (·.run.summary) ∧
    ∀ g ∈ later, ∀ n ∈ g.nodes, n ∉ (Passage.dispatched runs).map (·.node)
  started : startedGraphs (s.execute c).2.cycle.events =
    runs.map fun a => (a.graph.target, a.graph.nodes.length)
  stage : (s.execute c).2.cycle.stage = .executing
  notStarted : ∀ g ∈ m.graphs, ∀ n ∈ g.nodes, n ∉ (Passage.dispatched runs).map (·.node) →
    (s.execute c).2.cycle.tracker.state? n.id = some .notStarted
  unwritten : ∀ handle, s.cycle.cache = some handle → ∀ V', (s.execute c).2.world.caches.open? handle = some V' →
    ∃ V, s.world.caches.open? handle = some V ∧
      ∀ g ∈ m.graphs, ∀ n ∈ g.nodes, n ∉ (Passage.dispatched runs).map (·.node) →
        ∀ spec ∈ n.outputs, V'.get? spec = V.get? spec

/-- Values of a node that was not dispatched are values of no job. -/
theorem Executed.outputs_apart {graphs : List Graph} (hm : Model.ofGraphs graphs = .ok m)
    (h : Executed c m s runs tales) (hgs : ∀ g ∈ m.schedule, g.Accepted) {g : Graph} (hg : g ∈ m.graphs) {n : Node}
    (hn : n ∈ g.nodes) (hnot : n ∉ (Passage.dispatched runs).map (·.node)) {spec : Specification}
    (hspec : spec ∈ n.outputs) {j : Job} (hj : j ∈ Passage.dispatched runs) : spec ∉ j.node.outputs := by
  intro hout
  obtain ⟨g', hg', hn'⟩ := h.account.dispatched j hj
  have hnode := List.mem_map_of_mem (f := (·.node)) hj
  have hschedule := Model.mem_schedule.2 hg
  by_cases hsame : g' = g
  · rw [hsame] at hn'
    rw [(hgs g hschedule).wellFormed.eq_of_mem_outputs hn' hn hout hspec] at hnode
    exact hnot hnode
  · have hseparate := (Model.ofGraphs_ok hm).2.separate_schedule.forall hg' hschedule hsame
    exact (hseparate j.node hn' n hn).2 spec hout hspec

/-- What has been dispatched belongs to the graphs that were begun. -/
theorem Executed.later_apart {graphs : List Graph} (hm : Model.ofGraphs graphs = .ok m)
    (h : Executed c m s runs tales) (hgs : ∀ g ∈ m.schedule, g.Accepted) {later : List Graph}
    (hsplit : m.schedule = runs.map (·.graph) ++ later) {g : Graph} (hg : g ∈ later) {n : Node} (hn : n ∈ g.nodes) :
    n ∉ (Passage.dispatched runs).map (·.node) := by
  intro hmem
  obtain ⟨j, hj, rfl⟩ := List.mem_map.1 hmem
  obtain ⟨a, ha, hj⟩ := List.mem_flatMap.1 hj
  obtain ⟨k, ho⟩ := h.orderly hgs a ha
  have hbegun := (ho.dispatched_mem (List.mem_map_of_mem hj)).1
  have hseparate := (Model.ofGraphs_ok hm).2.separate_schedule
  rw [hsplit] at hseparate
  have hapart := (List.pairwise_append.1 hseparate).2.2 _ (List.mem_map_of_mem ha) g hg
  exact (hapart _ hbegun _ hn).1 rfl

theorem Executed.haltedBy {graphs : List Graph} (hm : Model.ofGraphs graphs = .ok m)
    (h : Executed c m s runs tales) (hgs : ∀ g ∈ m.schedule, g.Accepted) (hnew : s.cycle.Unbegun m)
    (hnone : s.cycle.reports = []) (he : (s.execute c).1 = .error e) : HaltedBy c m s runs e := by
  obtain ⟨token, handle, p, hsnapshot, hcache, hpasses, hafter⟩ := h.course
  obtain ⟨before, a, later, hruns, hsplit, hbefore, hfirst, hreports⟩ := hpasses.halted hgs he
  rw [show s.progress.reports = s.cycle.reports from rfl, hnone, List.nil_append] at hreports
  refine ⟨⟨before, a, later, hruns, hsplit, hbefore, hfirst, ?_, ?_⟩, ?_, ?_, ?_, ?_⟩
  · rw [hafter]
    exact hreports
  · exact fun g hg n hn => h.later_apart hm hgs hsplit hg hn
  · rw [h.started_eq hgs hnew, List.map_map]
    rfl
  · rw [hafter]
    rfl
  · intro g hg n hn hnot
    obtain ⟨st, job, hstate, -, hleft⟩ := h.account.nodes g (Model.mem_schedule.2 hg) n hn
    rw [hleft.notStarted_iff.2 hnot] at hstate
    exact hstate
  · intro handle' hhandle' V' hopen
    obtain rfl := Option.some.inj (hcache.symm.trans hhandle')
    rw [hafter] at hopen
    obtain ⟨V, hopen₀, hsame⟩ := (hpasses.confined hgs).values V' hopen
    exact ⟨V, hopen₀, fun g hg n hn hnot spec hspec =>
      hsame spec fun j hj => h.outputs_apart hm hgs hg hn hnot hspec hj⟩

/-- A fatal failure halts the run of its graph, and with it the cycle. However the jobs take turns, once the
scheduler of a graph has taken in a failure it dispatches nothing more, takes in what is outstanding, and ends
with that failure, whatever other failures come. The execution of a cycle answers a failure exactly where a
scheduler has taken in one, and then no graph is begun after that. -/
theorem fatal_failure_halts {graphs : List Graph} (hm : Model.ofGraphs graphs = .ok m)
    (hgs : ∀ g ∈ graphs, g.Accepted) (hpool : c.pool.Completes fun _ => True)
    (others : World σ → World σ → Prop) (world : World σ) (id : Uuid) (view : String) (results : Results)
    (past : List (Operation × Stage)) (h : Lives c others ⟨world, Cycle.create id view m results⟩ past s)
    (hstage : s.cycle.stage = .inputsPrepared) :
    (∀ (w : RunSetting) (g : Graph) (s : RunState) (k : Nat) (past : History) (r : GraphRun) (e : Failure),
      g.Accepted → GraphRun.Reached (fun _ => True) w (.start w g s k) past r → past.firstFailure = some e →
        GraphRun.HaltedBy w g s past r e) ∧
    ∃ runs, (∃ token handle p, s.cycle.snapshot = some token ∧ s.cycle.cache = some handle ∧
        Passes (s.setting c token handle) m.schedule s.progress runs (s.execute c).1 p ∧
        (s.execute c).2 = s.started.absorb p) ∧
      (∀ e, (s.execute c).1 = .error e ↔ ∃ a ∈ runs, a.past.firstFailure = some e) ∧
      ∀ e, (s.execute c).1 = .error e → HaltedBy c m s runs e := by
  refine ⟨fun _ _ _ _ _ _ _ hg hrun he => hrun.haltedBy hg he, ?_⟩
  have hrank : s.cycle.stage.rank ≤ Stage.inputsPrepared.rank := Nat.le_of_eq (congrArg Stage.rank hstage)
  have hschedule := Model.accepted_schedule hm hgs
  obtain ⟨runs, tales, hexecuted⟩ := h.executed hm hgs hpool hstage
  refine ⟨runs, hexecuted.course, ?_, fun e he =>
    hexecuted.haltedBy hm hschedule (h.unbegun hrank) (h.unreported hrank) he⟩
  intro e
  obtain ⟨token, handle, p, -, -, hpasses, -⟩ := hexecuted.course
  exact hpasses.error_iff hschedule

/-! Two calculations that crash, where nobody contains it. A third node of their graph is under way and comes
to its end, a fourth becomes ready too late, and the position would be next. -/

def breaking (name output : String) : Calculation where
  name := name
  requirements _ := []
  results _ := [sampleValue output]
  call _ _ _ := ⟨.crash none, []⟩

def faltering : Blueprint where
  registrations :=
    [⟨.position "P", constantly ["PV"]⟩, ⟨.primitive "EUR", relay "C" "D" (.crash none)⟩,
      ⟨.primitive "EUR", constantly ["C"]⟩, ⟨.primitive "EUR", breaking "second" "B"⟩,
      ⟨.primitive "EUR", breaking "first" "A"⟩]

/-- The failure of the first crash. -/
def firstCrash : Failure :=
  .invariant ("function " ++ "first" ++ " panicked on " ++ (Target.primitive "EUR").text ++ ": " ++
    Job.crashText none)

theorem faltering_halts :
    ∃ m s runs, faltering.build = .ok m ∧ (newcomer m).prepare exposed 0 = (.ok (), s) ∧
      (s.execute exposed).1 = .error firstCrash ∧ HaltedBy exposed m s runs firstCrash ∧
      (s.execute exposed).2.cycle.tracker.states =
        [.notStarted, .notStarted, .executed, .executing, .executing] := by
  obtain ⟨m, hm⟩ : ∃ m, faltering.build = .ok m := ⟨_, rfl⟩
  have hlives : Lives exposed (fun _ _ => False) (newcomer m) _
      ((newcomer m).perform exposed (.prepare 0)).2 := .call .start rfl
  obtain ⟨-, runs, -, -, hhalted⟩ := fatal_failure_halts (Blueprint.build_steps hm).2
    (fun g hg => Blueprint.accepted_of_build hm hg) (WorkerPool.single_completes.mono fun _ _ => trivial)
    _ _ _ _ _ _ hlives (by cases hm; rfl)
  have herror : (((newcomer m).perform exposed (.prepare 0)).2.execute exposed).1 = .error firstCrash := by
    cases hm
    rfl
  refine ⟨m, _, runs, hm, ?_, herror, hhalted _ herror, ?_⟩
  all_goals cases hm; rfl

end CalcCycle.Session
