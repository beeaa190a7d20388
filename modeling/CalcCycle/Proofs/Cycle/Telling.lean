import CalcCycle.Proofs.Cycle.Determinism
import CalcCycle.Proofs.Cycle.Unfinished

/-! What the listener of a cycle is told, and that telling it does no harm. The events of an execution are
those of its graphs, one graph after another; what is heard of a node says in which state the execution has
left it; and a node is dispatched after the end of what it reads has been heard. A listener that does not
cancel the cycle makes no difference to anything else, however its callbacks crash. -/

namespace CalcCycle

/-! ### In the same order -/

/-- The same setting with a listener that does nothing. -/
def RunSetting.quiet (w : RunSetting) : RunSetting := { w with listener := .silent }

/-- The pool that makes the moves that are planned for a run, as far as they are possible. -/
def WorkerPool.following (moves : GraphRun → List Move) : WorkerPool where
  drive w r := (moves r).foldl (fun r m => r.act w m) r

section Quiet
variable {w : RunSetting} (h : w.listener.NeverCancels)
include h

theorem RunState.notify_quiet (e : Event) (s : RunState) : s.notify w e = s.notify w.quiet e := by
  simp [notify, RunSetting.quiet, Listener.silent, h e]

theorem Job.advance_quiet (s : RunState) (j : Job) : j.advance w s = j.advance w.quiet s := by
  unfold advance
  simp only [RunState.notify_quiet h]
  rfl

namespace GraphRun

theorem start_quiet (g : Graph) (s : RunState) (k : Nat) : start w g s k = start w.quiet g s k := by
  simp only [start, RunState.notify_quiet h]

theorem act_quiet (m : Move) (r : GraphRun) : r.act w m = r.act w.quiet m := by
  unfold act
  cases m with
  | work i => simp only [step, Job.advance_quiet h]
  | dispatch | report | receive | cancel => rfl

theorem conduct_quiet (moves : GraphRun → List Move) (g : Graph) (s : RunState) (k : Nat) :
    conduct (.following moves) w g s k = conduct (.following moves) w.quiet g s k := by
  simp only [conduct, WorkerPool.following, start_quiet h, act_quiet h, RunState.notify_quiet h]

end GraphRun

theorem Session.runGraphs_quiet (moves : GraphRun → List Move) (gs : List Graph) (p : Progress) :
    runGraphs (.following moves) w gs p = runGraphs (.following moves) w.quiet gs p := by
  induction gs generalizing p with
  | nil => rfl
  | cons g rest ih => simp only [runGraphs, GraphRun.conduct_quiet h, ih]

end Quiet

/-- Whatever is reached is reached by a list of moves. -/
theorem GraphRun.Reached.exists_moves {allowed : Move → Prop} {w : RunSetting} {r₀ r : GraphRun} {past : History}
    (h : Reached allowed w r₀ past r) : ∃ moves : List Move, r = moves.foldl (fun r m => r.act w m) r₀ := by
  induction h with
  | start => exact ⟨[], rfl⟩
  | @move past r m r' before ok step ih =>
    obtain ⟨moves, rfl⟩ := ih
    exact ⟨moves ++ [m], by rw [List.foldl_append, List.foldl_cons, List.foldl_nil, act_of_step step]⟩

/-- A pool that completes follows some order in every graph. -/
theorem WorkerPool.Completes.exists_moves {pool : WorkerPool} {allowed : Move → Prop}
    (hpool : pool.Completes allowed) (w : RunSetting) :
    ∃ moves, ∀ g s k, g.Accepted →
      pool.drive w (.start w g s k) = (WorkerPool.following moves).drive w (.start w g s k) := by
  have hplan : ∀ r, ∃ moves : List Move, ∀ g s k, g.Accepted → r = GraphRun.start w g s k →
      pool.drive w r = moves.foldl (fun r m => r.act w m) r := by
    intro r
    by_cases hstart : ∃ g s k, g.Accepted ∧ r = GraphRun.start w g s k
    · obtain ⟨g, s, k, hg, rfl⟩ := hstart
      obtain ⟨-, past, hrun⟩ := hpool w g s k hg
      obtain ⟨moves, hmoves⟩ := hrun.exists_moves
      exact ⟨moves, fun _ _ _ _ _ => hmoves⟩
    · exact ⟨[], fun g s k hg he => absurd ⟨g, s, k, hg, he⟩ hstart⟩
  choose moves hmoves using hplan
  exact ⟨moves, fun g s k hg => hmoves _ g s k hg rfl⟩

namespace Session

theorem runGraphs_congr {pool pool' : WorkerPool} {w : RunSetting} {gs : List Graph}
    (h : ∀ g ∈ gs, ∀ s k, pool.drive w (.start w g s k) = pool'.drive w (.start w g s k)) (p : Progress) :
    runGraphs pool w gs p = runGraphs pool' w gs p := by
  induction gs generalizing p with
  | nil => rfl
  | cons g rest ih =>
    obtain ⟨hg, hrest⟩ := List.forall_mem_cons.1 h
    simp only [runGraphs, GraphRun.conduct, hg, ih hrest]

variable {σ : Type} {c : Context σ} {s : Session σ} {m : Model} {runs : List Passage} {tales : List Tale}

/-- The listener of the context makes no difference to an execution from `s` on. -/
structure Undisturbed (c : Context σ) (s : Session σ) : Prop where
  /-- In one and the same order of moves all is as with a listener that does nothing. -/
  same : ∀ moves, s.execute { c with pool := .following moves } =
    s.execute { c with pool := .following moves, listener := .silent }
  /-- The pool of the context follows one such order. -/
  ordered : ∃ moves, s.execute c = s.execute { c with pool := .following moves }

theorem execute_quiet (h : c.listener.NeverCancels) (moves : GraphRun → List Move) :
    s.execute { c with pool := .following moves } =
      s.execute { c with pool := .following moves, listener := .silent } := by
  unfold execute
  split
  · rfl
  · split
    · rfl
    · next token cache _ =>
      exact congrArg (fun after => (after.1, s.started.absorb after.2))
        (runGraphs_quiet (w := s.setting c token cache) h moves s.cycle.model.schedule s.progress)

theorem execute_ordered (hgs : ∀ g ∈ s.cycle.model.schedule, g.Accepted)
    (hpool : c.pool.Completes fun _ => True) :
    ∃ moves, s.execute c = s.execute { c with pool := .following moves } := by
  unfold execute
  split
  · exact ⟨fun _ => [], rfl⟩
  · split
    · exact ⟨fun _ => [], rfl⟩
    · next token cache _ =>
      obtain ⟨moves, hmoves⟩ := hpool.exists_moves (s.setting c token cache)
      have hruns := runGraphs_congr (fun g hg s k => hmoves g s k (hgs g hg)) s.progress
      exact ⟨moves, congrArg (fun after => (after.1, s.started.absorb after.2)) hruns⟩

/-! ### What is told -/

/-- What the listener has heard when the execution of a new cycle is over, tale by tale: a graph is said to
have started, then come events of its nodes, then it is said to have completed, and only then the next graph
begins. -/
structure Tells (c : Context σ) (m : Model) (s : Session σ) (tales : List Tale) : Prop where
  events : (s.execute c).2.cycle.events = tales.flatMap Tale.events
  graphs : tales.map (·.graph) <+: m.schedule
  bodies : ∀ a ∈ tales, ∀ e ∈ a.body, ∃ n ∈ a.graph.nodes, e.node? = some n.id
  /-- Of a node that has not started nothing was heard, of one that is executing its dispatch, and of one that
  has ended its dispatch and then its end, with the state it is in. -/
  heard : ∀ g ∈ m.graphs, ∀ n ∈ g.nodes, ∃ st job, (s.execute c).2.cycle.tracker.state? n.id = some st ∧
    hearing n.id (s.execute c).2.cycle.events = st.tale n.id job
  /-- When a node is dispatched, the end of every producer of its inputs has been heard. -/
  producers : ∀ a ∈ tales, ∀ n ∈ a.graph.nodes, ∀ front job back,
    a.body = front ++ .nodeDispatched n.id job :: back →
    ∀ b ∈ a.graph.nodes, (∃ spec ∈ n.inputs, spec ∈ b.outputs) → ∃ st, .nodeCompleted b.id st ∈ front

theorem Executed.tells (hgs : ∀ g ∈ m.schedule, g.Accepted) (h : Executed c m s runs tales)
    (hnew : s.cycle.Unbegun m) : Tells c m s tales := by
  have hevents : (s.execute c).2.cycle.events = tales.flatMap Tale.events := by
    have hall := h.account.events
    rw [show s.progress.state.events = s.cycle.events from rfl, hnew.events, List.nil_append] at hall
    exact hall
  refine ⟨hevents, ?_, h.account.bodies, ?_, ?_⟩
  · rw [h.account.graphs]
    exact h.begun
  · intro g hg n hn
    obtain ⟨st, job, hstate, hheard, -⟩ := h.account.nodes g (Model.mem_schedule.2 hg) n hn
    rw [hevents]
    exact ⟨st, job, hstate, hheard⟩
  · intro a ha n hn front job back hsplit b hb hreads
    have hg := (hgs a.graph (h.account.among a ha)).wellFormed
    exact h.account.turns a ha front n.id job back hsplit b.id ((hg.mem_dependencies hn).2 ⟨b, hb, rfl, hreads⟩)

/-- In every execution of a new cycle over an accepted model the listener is told what happens in order, also
where a fatal failure or a cancellation ends it; and if the listener does not cancel the cycle itself, the
execution is the same without it. -/
theorem told_in_order_and_undisturbed {graphs : List Graph} (hm : Model.ofGraphs graphs = .ok m)
    (hgs : ∀ g ∈ graphs, g.Accepted) (hpool : c.pool.Completes fun _ => True)
    (others : World σ → World σ → Prop) (world : World σ) (id : Uuid) (view : String) (results : Results)
    (past : List (Operation × Stage))
    (h : Lives c others ⟨world, Cycle.create id view m results⟩ past s)
    (hstage : s.cycle.stage = .inputsPrepared) :
    (∃ tales, Tells c m s tales) ∧ (c.listener.NeverCancels → Undisturbed c s) := by
  obtain ⟨runs, tales, hexecuted⟩ := h.executed hm hgs hpool hstage
  have hnew := h.unbegun (by simp [hstage, Stage.rank])
  have haccepted := Model.accepted_schedule hm hgs
  refine ⟨⟨tales, hexecuted.tells haccepted hnew⟩, fun hquiet => ⟨execute_quiet hquiet, ?_⟩⟩
  apply execute_ordered ?_ hpool
  rw [hnew.model]
  exact haccepted

/-- A listener whose callbacks crash. -/
def startled : Context MemoryFeed :=
  { exposed with listener := .scripted ["graph_started", "node_completed", "graph_completed"] [] }

/-- A node whose job is broken off is heard to be dispatched, and not to end. -/
theorem startled_told :
    ∃ m s tales, crashing.build = .ok m ∧ (newcomer m).prepare startled 0 = (.ok (), s) ∧
      Tells startled m s tales ∧ Undisturbed startled s ∧
      (s.execute startled).2.cycle.events =
        [.graphStarted (.position "P") 1, .nodeDispatched ⟨0⟩ 1, .graphCompleted (.position "P")] := by
  obtain ⟨m, hm⟩ : ∃ m, crashing.build = .ok m := ⟨_, rfl⟩
  have hlives : Lives startled (fun _ _ => False) (newcomer m) _
      ((newcomer m).perform startled (.prepare 0)).2 := .call .start rfl
  obtain ⟨⟨tales, htells⟩, hundisturbed⟩ := told_in_order_and_undisturbed (Blueprint.build_steps hm).2
    (fun g hg => Blueprint.accepted_of_build hm hg) (WorkerPool.single_completes.mono fun _ _ => trivial)
    _ _ _ _ _ _ hlives (by cases hm; rfl)
  refine ⟨m, _, tales, hm, ?_, htells, hundisturbed fun e => rfl, ?_⟩
  · cases hm
    rfl
  · cases hm
    rfl

end Session

end CalcCycle
