import CalcCycle.Proofs.Cycle.Passage

/-! Where an execution leaves the nodes of a model, in whatever order the jobs take turns and whenever
somebody cancels. A node that was dispatched executes or fails unless its job is broken off, by a cache that
refuses it or by a crash that nobody contains. Such a node is executing for good, and the counts of the
cycle miss it. -/

namespace CalcCycle

theorem Tracker.state?_start_eq {count : Nat} {n : NodeId} {st : NodeState}
    (h : (start count).state? n = some st) : st = .notStarted := by
  unfold start state? at h
  exact List.eq_of_mem_replicate (List.mem_of_getElem? h)

namespace Session
variable {σ : Type} {c : Context σ} {s : Session σ} {m : Model} {runs : List Passage} {tales : List Tale}

/-- Where the execution of a new cycle has left the nodes of its model. It goes well if no job is broken off,
and then no node is executing, and the counts add up to the number of nodes. -/
structure Leaves (c : Context σ) (m : Model) (s : Session σ) (runs : List Passage) : Prop where
  course : ∃ token handle p, s.cycle.snapshot = some token ∧ s.cycle.cache = some handle ∧
    Passes (s.setting c token handle) m.schedule s.progress runs (s.execute c).1 p ∧
    (s.execute c).2 = s.started.absorb p
  /-- Executing if its job was broken off, not started if it has none, and else terminal. -/
  nodes : ∀ g ∈ m.graphs, ∀ n ∈ g.nodes, ∃ st, (s.execute c).2.cycle.tracker.state? n.id = some st ∧
    n.Left (Passage.dispatched runs) (Passage.broken runs) st
  broken : ∀ j ∈ Passage.broken runs, j.node ∈ (Passage.dispatched runs).map (·.node) ∧
    ∃ e, j.phase = .finished (.error e) ∧ j.node.BrokenBy c.config.containCrashes e
  executing : ((s.execute c).2.cycle.tracker.nodesIn .executing).Perm
    ((Passage.broken runs).map (·.node.id))
  outcome : (s.execute c).1 = .ok () ↔ Passage.broken runs = []
  nodeCount : (s.execute c).2.cycle.stats.nodeCount = m.nodeCount
  total : (s.execute c).2.cycle.stats.executed + (s.execute c).2.cycle.stats.failed +
    (s.execute c).2.cycle.stats.notStarted + (Passage.broken runs).length =
      (s.execute c).2.cycle.stats.nodeCount

/-- The nodes that are executing at the end are those whose jobs have been broken off. -/
theorem Executed.executing_perm (h : Executed c m s runs tales) (hnew : s.cycle.Unbegun m) :
    ((s.execute c).2.cycle.tracker.nodesIn .executing).Perm ((Passage.broken runs).map (·.node.id)) := by
  refine (List.perm_ext_iff_of_nodup (Tracker.nodup_nodesIn _ _) h.account.broken_nodup).2 fun id => ?_
  rw [Tracker.mem_nodesIn]
  constructor
  · intro hexecuting
    by_cases hnode : ∃ g ∈ m.schedule, ∃ n ∈ g.nodes, n.id = id
    · obtain ⟨g, hg, n, hn, rfl⟩ := hnode
      obtain ⟨st, job, hstate, -, hleft⟩ := h.account.nodes g hg n hn
      obtain rfl := Option.some.inj (hstate.symm.trans hexecuting)
      obtain ⟨j, hj, hnode⟩ := List.mem_map.1 (hleft.executing_iff.1 rfl)
      exact List.mem_map.2 ⟨j, hj, congrArg (·.id) hnode⟩
    · -- a place of the tracker that belongs to no node has not been touched
      have hsame := h.account.elsewhere id fun g hg n hn he => hnode ⟨g, hg, n, hn, he⟩
      have hstart := hsame.symm.trans hexecuting
      rw [show s.progress.state.tracker = s.cycle.tracker from rfl, hnew.tracker] at hstart
      cases Tracker.state?_start_eq hstart
  · intro hbroken
    obtain ⟨j, hj, rfl⟩ := List.mem_map.1 hbroken
    obtain ⟨g, hg, hn⟩ := h.account.broken_among hj
    obtain ⟨st, job, hstate, -, hleft⟩ := h.account.nodes g hg j.node hn
    rw [hleft.executing_iff.2 (List.mem_map_of_mem hj)] at hstate
    exact hstate

/-- What a new cycle over an accepted model leaves behind when its plans are executed: every node that was
dispatched has executed or failed, but for those whose jobs were broken off. -/
theorem nodes_end_unless_broken_off {graphs : List Graph} (hm : Model.ofGraphs graphs = .ok m)
    (hgs : ∀ g ∈ graphs, g.Accepted) (hpool : c.pool.Completes fun _ => True)
    (others : World σ → World σ → Prop) (world : World σ) (id : Uuid) (view : String) (results : Results)
    (past : List (Operation × Stage))
    (h : Lives c others ⟨world, Cycle.create id view m results⟩ past s)
    (hstage : s.cycle.stage = .inputsPrepared) : ∃ runs, Leaves c m s runs := by
  obtain ⟨runs, tales, hexecuted⟩ := h.executed hm hgs hpool hstage
  have hnew := h.unbegun (by simp [hstage, Stage.rank])
  have hperm := hexecuted.executing_perm hnew
  obtain ⟨token, handle, p, hsnapshot, hcache, hpasses, hafter⟩ := hexecuted.course
  have hsize : (s.execute c).2.cycle.tracker.states.length = m.nodeCount := by
    have hsame : (s.execute c).2.cycle.tracker.size = s.cycle.tracker.size := hexecuted.account.size
    rw [hnew.tracker] at hsame
    simpa [Tracker.size, Tracker.start] using hsame
  have hstats : (s.execute c).2.cycle.stats =
      countStates (s.execute c).2.cycle.tracker (s.execute c).2.cycle.reports s.cycle.stats := by
    rw [hafter]
    rfl
  have hcount : (s.execute c).2.cycle.stats.nodeCount = m.nodeCount := by
    rw [hstats]
    exact hnew.nodeCount
  refine ⟨runs, hexecuted.course, ?_, hexecuted.account.broken, hperm, hexecuted.outcome, hcount, ?_⟩
  · intro g hg n hn
    obtain ⟨st, job, hstate, -, hleft⟩ := hexecuted.account.nodes g (Model.mem_schedule.2 hg) n hn
    exact ⟨st, hstate, hleft⟩
  · have hsum := StateCounts.add_ofStates (s.execute c).2.cycle.tracker.states
    have hlength := hperm.length_eq
    rw [Tracker.length_nodesIn, List.length_map] at hlength
    rw [hcount, ← hsize, ← hsum, hlength, hstats]
    rfl

/-! A calculation that crashes, where nobody contains it. -/

def crasher : Calculation where
  name := "f"
  requirements _ := []
  results t := [{ name := "PV", target := t }]
  call _ _ _ := ⟨.crash (some "literal panic"), []⟩

def crashing : Blueprint := { registrations := [⟨.position "P", crasher⟩] }

def exposed : Context MemoryFeed := { config := { containCrashes := false }, feed := MemoryFeed.source }

def newcomer (m : Model) : Session MemoryFeed := ⟨{ feed := .empty }, Cycle.create ⟨1⟩ "V" m (.empty "V")⟩

theorem crash_breaks_off :
    ∃ m s runs, crashing.build = .ok m ∧ ((newcomer m).prepare exposed 0) = (.ok (), s) ∧
      Leaves exposed m s runs ∧ (Passage.broken runs).map (·.node.id) = [⟨0⟩] := by
  obtain ⟨m, hm⟩ : ∃ m, crashing.build = .ok m := ⟨_, rfl⟩
  have hlives : Lives exposed (fun _ _ => False) (newcomer m) _
      ((newcomer m).perform exposed (.prepare 0)).2 := .call .start rfl
  obtain ⟨runs, hleaves⟩ := nodes_end_unless_broken_off (Blueprint.build_steps hm).2
    (fun g hg => Blueprint.accepted_of_build hm hg) (WorkerPool.single_completes.mono fun _ _ => trivial)
    _ _ _ _ _ _ hlives (by cases hm; rfl)
  refine ⟨m, _, runs, hm, ?_, hleaves, ?_⟩
  · cases hm
    rfl
  · have hperm := hleaves.executing
    have hnodes : (((newcomer m).perform exposed (.prepare 0)).2.execute exposed).2.cycle.tracker.nodesIn
        .executing = [⟨0⟩] := by
      cases hm
      rfl
    rw [hnodes] at hperm
    exact List.perm_singleton.1 hperm.symm

/-- The execution is over, but a node is executing, and the counts miss it. -/
theorem crash_leaves_node_executing :
    ∃ m, crashing.build = .ok m ∧ ∃ s, performAll exposed [.prepare 0, .execute] (newcomer m) = s ∧
      s.cycle.tracker.state? ⟨0⟩ = some .executing ∧ s.cycle.stats.nodeCount = 1 ∧
      s.cycle.stats.executed + s.cycle.stats.failed + s.cycle.stats.notStarted = 0 :=
  ⟨_, rfl, _, rfl, rfl, rfl, rfl⟩

end Session

end CalcCycle
