import CalcCycle.Cycle.Basic
import CalcCycle.Proofs.Execution.Pool
import CalcCycle.Proofs.Execution.Soundness

/-! The course of a cycle through its graphs, and what holds of the scheduler all along it: a node is
dispatched once, after the producers of its inputs have ended; the books are right; the jobs are
numbered in the order of dispatch; and an undisturbed run ends with all nodes done. -/

namespace CalcCycle

namespace GraphRun

variable {w : RunSetting} {g : Graph} {k : Nat} {past : History} {r : GraphRun}

namespace Orderly

/-- A node whose completion has been taken in is in a terminal state. -/
theorem terminal_of_completed (h : Orderly g k past r) (ht : Truthful past r) {id : NodeId}
    (hid : id ∈ past.completed) :
    ∃ st, st.isTerminal = true ∧ r.state.tracker.state? id = some st := by
  obtain ⟨c, hc, rfl, st, hst⟩ := mem_completed.1 hid
  obtain ⟨j, hj, hnode, hphase⟩ := exists_partner h.arrived (List.mem_append_left _ hc)
  rw [hst] at hphase
  obtain ⟨hterminal, hstate⟩ := ht j (List.mem_append_right _ hj) st (Or.inr hphase)
  exact ⟨st, hterminal, by rw [hnode, hstate]⟩

/-- What is dispatched next is a node of the graph that waits for nothing. -/
theorem next_opened (h : Orderly g k past r) {j : Job} (hj : r.nextJob? = some j) :
    j.node ∈ g.nodes ∧ g.waitingFor past.completed j.node.id = [] := by
  unfold nextJob? at hj
  split at hj
  · next n rest hready =>
    split_ifs at hj
    cases hj
    have hoffered : n ∈ past.offered r := by simp [History.offered, hready]
    exact (h.opened.mem n).1 hoffered
  · cases hj

/-- The producers of what is dispatched next have ended. -/
theorem producers_terminal (hg : g.WellFormed) (h : Orderly g k past r) (ht : Truthful past r) {j : Job}
    (hj : r.nextJob? = some j) {a : Node} (ha : a ∈ g.nodes) (hs : ∃ s ∈ j.node.inputs, s ∈ a.outputs) :
    ∃ st, st.isTerminal = true ∧ r.state.tracker.state? a.id = some st := by
  obtain ⟨hn, hnil⟩ := h.next_opened hj
  have hdep : a.id ∈ g.dependencies j.node.id := (hg.mem_dependencies hn).2 ⟨a, ha, rfl, hs⟩
  apply h.terminal_of_completed ht
  by_contra hnot
  have hwaiting := Graph.mem_waitingFor.2 ⟨hdep, hnot⟩
  rw [hnil] at hwaiting
  cases hwaiting

theorem pending_nonneg (h : Orderly g k past r) {e : NodeId × Int} (he : e ∈ r.pending) : 0 ≤ e.2 := by
  rw [h.pending] at he
  obtain ⟨n, -, rfl⟩ := List.mem_map.1 he
  exact Int.natCast_nonneg _

/-- The jobs outstanding are those dispatched whose completion has not been taken in. -/
theorem outstanding_eq_filter (h : Orderly g k past r) :
    r.outstanding =
      (past.dispatched.filter fun j => j.node.id ∉ past.received.map (·.node)).length := by
  have hnodup := h.arrived_nodup
  rw [List.map_append] at hnodup
  have hsub : ∀ id ∈ past.received.map (·.node), id ∈ past.dispatched.map (·.node.id) := by
    intro id hid
    have hreported : id ∈ past.reported.map (·.node.id) := by
      rw [← h.arrived_ids, List.map_append]
      exact List.mem_append_left _ hid
    have hplaced := h.placed.map (·.id)
    rw [List.map_map, List.map_map, List.map_append] at hplaced
    exact hplaced.mem_iff.1 (List.mem_append_right _ hreported)
  have hperm : ((past.dispatched.filter fun j => j.node.id ∈ past.received.map (·.node)).map
      (·.node.id)).Perm (past.received.map (·.node)) := by
    refine (List.perm_ext_iff_of_nodup ?_ (List.nodup_append.1 hnodup).1).2 ?_
    · exact h.dispatched_nodup.sublist (List.filter_sublist.map _)
    · intro id
      simp only [List.mem_map, List.mem_filter, decide_eq_true_eq]
      constructor
      · rintro ⟨j, ⟨-, hj⟩, rfl⟩
        exact hj
      · intro hid
        obtain ⟨j, hj, rfl⟩ := List.mem_map.1 (hsub id (List.mem_map.2 hid))
        exact ⟨j, ⟨hj, hid⟩, rfl⟩
  have hlength := hperm.length_eq
  have hsplit := List.length_eq_length_filter_add (l := past.dispatched)
    fun j => decide (j.node.id ∈ past.received.map (·.node))
  have hcount := h.outstanding
  simp only [List.length_map, ← decide_not] at hlength hsplit
  omega

end Orderly

/-- A run that is over, undisturbed, has done all nodes of its graph. -/
structure AllDone (past : History) (r : GraphRun) : Prop where
  dispatched : past.dispatched.length = r.graph.nodes.length
  received : past.received.length = r.graph.nodes.length
  terminal : ∀ n ∈ r.graph.nodes, ∃ st, st.isTerminal = true ∧ r.state.tracker.state? n.id = some st
  result : r.result = .ok r.summary

theorem Orderly.allDone (hg : g.WellFormed) (h : Orderly g k past r) (ht : Truthful past r)
    (hdone : r.isDone = true) (hcancel : r.state.cancelled = false) (hfatal : r.fatal = none) :
    AllDone past r := by
  have hgoing : r.isStopped = false := by simp [isStopped, hcancel, hfatal]
  have hdispatched := h.dispatched_perm hg hdone hgoing
  have hreceived := h.received_perm hdone
  have hcompleted := h.completed_of_no_fatal hfatal
  have hlength := hdispatched.length_eq
  have hlength' := hreceived.length_eq
  rw [List.length_map] at hlength
  rw [List.length_map, List.length_map] at hlength'
  rw [← h.graph] at hlength hdispatched
  refine ⟨hlength, hlength'.trans hlength, ?_, ?_⟩
  · intro n hn
    refine h.terminal_of_completed ht ?_
    rw [hcompleted, hreceived.mem_iff]
    obtain ⟨j, hj, rfl⟩ := List.mem_map.1 (hdispatched.mem_iff.2 hn)
    exact List.mem_map_of_mem hj
  · have hresolved := h.resolved
    rw [hcompleted, List.length_map, hlength', hlength] at hresolved
    simp [result, hfatal, hresolved]

/-- What may be relied on in every state of the scheduler. -/
structure WellScheduled (w : RunSetting) (past : History) (r : GraphRun) : Prop where
  /-- The producers of what the next job reads have ended. -/
  producers : ∀ j, r.nextJob? = some j → ∀ a ∈ r.graph.nodes, (∃ s ∈ j.node.inputs, s ∈ a.outputs) →
    ∃ st, st.isTerminal = true ∧ r.state.tracker.state? a.id = some st
  once : (past.dispatched.map (·.node.id)).Nodup
  counters : ∀ e ∈ r.pending, 0 ≤ e.2
  outstanding : r.outstanding =
    (past.dispatched.filter fun j => j.node.id ∉ past.received.map (·.node)).length
  /-- A run that is not over can go on without being cancelled, but not for ever. -/
  progress : r.isDone = false → ∃ m, m ≠ .cancel ∧ (r.step w m).isSome = true
  ends : Acc (fun r' r => ∃ m, m ≠ .cancel ∧ r.step w m = some r') r
  done : r.isDone = true → r.state.cancelled = false → r.fatal = none → AllDone past r

theorem Reached.wellScheduled {allowed : Move → Prop} {s : RunState} (hg : g.WellFormed)
    (h : Reached allowed w (GraphRun.start w g s k) past r) : WellScheduled w past r := by
  have ho := h.orderly hg
  have ht := h.truthful
  exact
    { producers := fun j hj a ha hs => ho.producers_terminal hg ht hj (ho.graph ▸ ha) hs
      once := ho.dispatched_nodup
      counters := fun _ he => ho.pending_nonneg he
      outstanding := ho.outstanding_eq_filter
      progress := ho.exists_move w
      ends := ho.ends hg
      done := ho.allDone hg ht }

end GraphRun

/-! ### Graph after graph -/

namespace Session

/-- `Underway w gs p jobs g past r`: a cycle that runs the graphs `gs` from `p` on has come to the run
`r` of the graph `g`; the jobs of the graphs before were `jobs`, in order of dispatch. -/
inductive Underway (w : RunSetting) :
    List Graph → Progress → List Job → Graph → History → GraphRun → Prop
  | inside {g rest p past r} (going : p.state.cancelled = false)
    (run : GraphRun.Reached (fun _ => True) w (.start w g p.state p.lastJob) past r) :
    Underway w (g :: rest) p [] g past r
  | after {g rest p past r report jobs g' past' r'} (going : p.state.cancelled = false)
    (run : GraphRun.Reached (fun _ => True) w (.start w g p.state p.lastJob) past r)
    (done : r.isDone = true) (ok : (r.closed w g).result = .ok report)
    (next : Underway w rest ⟨(r.closed w g).state, r.lastJob, p.reports ++ [report]⟩ jobs g' past' r') :
    Underway w (g :: rest) p (past.dispatched ++ jobs) g' past' r'

variable {w : RunSetting} {gs : List Graph} {p : Progress} {jobs : List Job} {g : Graph}
  {past : History} {r : GraphRun}

/-- Wherever a cycle is underway, its scheduler is as it should be, and the jobs it has dispatched so
far, over all graphs, are numbered on from the last job before, without a gap. A new cycle starts
from zero. -/
theorem scheduling_safe_and_live (hgs : ∀ g ∈ gs, g.Accepted) (h : Underway w gs p jobs g past r) :
    g ∈ gs ∧ r.graph = g ∧ r.WellScheduled w past ∧
      (jobs ++ past.dispatched).map (·.id) =
        List.range' (p.lastJob + 1) (jobs ++ past.dispatched).length := by
  induction h with
  | @inside g rest p past r going run =>
    have hg := (hgs g List.mem_cons_self).wellFormed
    have ho := run.orderly hg
    exact ⟨List.mem_cons_self, ho.graph, run.wellScheduled hg, ho.ids⟩
  | @after g rest p past r report jobs g' past' r' going run done ok next ih =>
    obtain ⟨hmem, hgraph, hscheduled, hids⟩ := ih fun g hg => hgs g (List.mem_cons_of_mem _ hg)
    have ho := run.orderly (hgs g List.mem_cons_self).wellFormed
    refine ⟨List.mem_cons_of_mem _ hmem, hgraph, hscheduled, ?_⟩
    rw [ho.lastJob] at hids
    rw [List.append_assoc, List.map_append, hids, ho.ids, Nat.add_right_comm, List.range'_append_1,
      ← List.length_append]

/-- A cycle with a pool that completes is underway at each of its graphs. -/
theorem exists_underway {pool : WorkerPool} {allowed : Move → Prop} (hpool : pool.Completes allowed)
    (front back : List Graph) (hgs : ∀ a ∈ front ++ g :: back, a.Accepted) {p p' : Progress}
    (hfront : runGraphs pool w front p = (.ok (), p')) (hgoing : p'.state.cancelled = false) :
    ∃ jobs past, Underway w (front ++ g :: back) p jobs g past
      (pool.drive w (.start w g p'.state p'.lastJob)) := by
  induction front generalizing p with
  | nil =>
    obtain ⟨-, rfl⟩ := Prod.mk.inj hfront
    obtain ⟨-, past, hrun⟩ := hpool w g p.state p.lastJob (hgs g List.mem_cons_self)
    exact ⟨[], past, .inside hgoing (hrun.mono fun _ _ => trivial)⟩
  | cons a rest ih =>
    rw [runGraphs] at hfront
    split_ifs at hfront with hcancelled
    · cases hfront
      rw [hcancelled] at hgoing
      cases hgoing
    obtain ⟨hdone, past, hrun⟩ := hpool w a p.state p.lastJob (hgs a List.mem_cons_self)
    have hconduct : GraphRun.conduct pool w a p.state p.lastJob =
        (((pool.drive w (.start w a p.state p.lastJob)).closed w a).result,
          ((pool.drive w (.start w a p.state p.lastJob)).closed w a).state,
          (pool.drive w (.start w a p.state p.lastJob)).lastJob) := rfl
    rw [hconduct] at hfront
    cases hresult : ((pool.drive w (.start w a p.state p.lastJob)).closed w a).result with
    | error e => rw [hresult] at hfront; cases hfront
    | ok report =>
      rw [hresult] at hfront
      obtain ⟨jobs, past', hunderway⟩ :=
        ih (fun g hg => hgs g (List.mem_cons_of_mem _ hg)) hfront
      exact ⟨_, past', .after (by simpa using hcancelled) (hrun.mono fun _ _ => trivial) hdone hresult
        hunderway⟩

/-! A diamond: two nodes read what one produces, and a fourth reads both. -/

def sampleValue (name : String) : Specification := { name, target := .primitive "EUR" }

/-- Answers every call with the same values. -/
def constantly (outputs : List String) : Calculation where
  name := "constant"
  requirements _ := []
  results _ := outputs.map sampleValue
  call _ _ _ := ⟨.values (outputs.map fun s => ⟨sampleValue s, .text s⟩), []⟩

def sampleNode (id : Nat) (inputs outputs : List String) : Node :=
  .make ⟨id⟩ (.primitive "EUR") (constantly outputs) (inputs.map sampleValue) (outputs.map sampleValue)

def diamond : List Node :=
  [sampleNode 0 ["B", "C"] ["D"], sampleNode 1 [] ["A"], sampleNode 2 ["A"] ["B"], sampleNode 3 ["A"] ["C"]]

def sampleSetting : RunSetting := ⟨"view", ⟨1⟩, ⟨0⟩, .silent, true⟩

def sampleProgress (nodeCount : Nat) : Progress where
  state := { caches := (CacheStore.empty.standalone "view" ⟨1⟩).2, tracker := .start nodeCount }
  lastJob := 0
  reports := []

theorem diamond_wellScheduled :
    ∃ g, Graph.ofNodes (.primitive "EUR") diamond [] = .ok g ∧
      ∃ jobs past r, Underway sampleSetting [g] (sampleProgress 4) jobs g past r ∧
        r.isDone = true ∧ r.WellScheduled sampleSetting past := by
  obtain ⟨g, hg⟩ : ∃ g, Graph.ofNodes (.primitive "EUR") diamond [] = .ok g := ⟨_, rfl⟩
  have hgs : ∀ a ∈ [g], a.Accepted := by
    intro a ha
    rw [List.mem_singleton.1 ha]
    exact ⟨_, _, _, hg⟩
  obtain ⟨jobs, past, hunderway⟩ := exists_underway (w := sampleSetting) (g := g)
    WorkerPool.single_completes [] [] hgs (p := sampleProgress 4) rfl rfl
  obtain ⟨-, -, hscheduled, -⟩ := scheduling_safe_and_live hgs hunderway
  have hdone := (WorkerPool.single_completes sampleSetting g (sampleProgress 4).state 0
    (hgs g List.mem_cons_self)).1
  exact ⟨g, hg, jobs, past, _, hunderway, hdone, hscheduled⟩

end Session

end CalcCycle
