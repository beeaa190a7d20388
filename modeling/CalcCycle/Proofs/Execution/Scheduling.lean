import CalcCycle.Proofs.Execution.History
import CalcCycle.Proofs.Graph.WellFormed
import Mathlib.Data.List.Forall2
import Mathlib.Data.List.Perm.Basic

/-! The books of the scheduler. In every reached state the counter of a node is the number of its
dependencies whose completion has not been taken in, the nodes that have been offered for dispatch are
those whose counter is zero, and no node is offered twice. -/

namespace CalcCycle

namespace Graph

/-- The dependencies of a node that are not done. -/
def waitingFor (g : Graph) (done : List NodeId) (id : NodeId) : List NodeId :=
  (g.dependencies id).filter (· ∉ done)

/-- The list has each node of the graph once that waits for nothing any more. -/
structure Opened (g : Graph) (done : List NodeId) (l : List Node) : Prop where
  nodup : (l.map (·.id)).Nodup
  mem : ∀ n, n ∈ l ↔ n ∈ g.nodes ∧ g.waitingFor done n.id = []

theorem Opened.perm {g : Graph} {done : List NodeId} {l l' : List Node} (h : g.Opened done l)
    (hp : l'.Perm l) : g.Opened done l' :=
  ⟨(hp.map _).nodup_iff.2 h.nodup, fun n => hp.mem_iff.trans (h.mem n)⟩

theorem mem_waitingFor {g : Graph} {done : List NodeId} {id p : NodeId} :
    p ∈ g.waitingFor done id ↔ p ∈ g.dependencies id ∧ p ∉ done := by
  simp [waitingFor]

theorem waitingFor_nil (g : Graph) (id : NodeId) : g.waitingFor [] id = g.dependencies id := by
  simp [waitingFor]

theorem waitingFor_append (g : Graph) (done : List NodeId) (c id : NodeId) :
    g.waitingFor (done ++ [c]) id = (g.waitingFor done id).filter (· ≠ c) := by
  unfold waitingFor
  rw [List.filter_filter]
  apply List.filter_congr
  intro p _
  simp only [List.mem_append, List.mem_singleton, not_or, Bool.decide_and, Bool.and_comm]

theorem waitingFor_append_of_notMem {g : Graph} {done : List NodeId} {c id : NodeId}
    (h : c ∉ g.dependencies id) : g.waitingFor (done ++ [c]) id = g.waitingFor done id := by
  rw [waitingFor_append, List.filter_eq_self]
  intro p hp
  have hne : p ≠ c := fun he => h (he ▸ (mem_waitingFor.1 hp).1)
  simpa using hne

theorem WellFormed.length_waitingFor_append {g : Graph} (hg : g.WellFormed) {done : List NodeId}
    {c id : NodeId} (h : c ∈ g.dependencies id) (hc : c ∉ done) :
    (g.waitingFor done id).length = (g.waitingFor (done ++ [c]) id).length + 1 := by
  have hmem : c ∈ g.waitingFor done id := mem_waitingFor.2 ⟨h, hc⟩
  have hnodup : (g.waitingFor done id).Nodup := (hg.nodup_dependencies id).filter _
  have herase : g.waitingFor (done ++ [c]) id = (g.waitingFor done id).erase c := by
    rw [waitingFor_append, hnodup.erase_eq_filter]
    exact List.filter_congr fun p _ => by by_cases he : p = c <;> simp [he]
  rw [herase, List.length_erase_of_mem hmem]
  have hpos := List.length_pos_of_mem hmem
  omega

/-- When one more node is done, the nodes that waited for it alone are opened. -/
theorem Opened.done {g : Graph} (hg : g.WellFormed) {done : List NodeId} {l : List Node}
    (h : g.Opened done l) {c : NodeId} (hc : c ∉ done) :
    g.Opened (done ++ [c]) (l ++ (inOrder g.nodes (g.dependents c)).filter
      fun n => ((g.waitingFor done n.id).length : Int) = 1) := by
  have hnew : ∀ n, n ∈ (inOrder g.nodes (g.dependents c)).filter
      (fun n => ((g.waitingFor done n.id).length : Int) = 1) ↔
      n ∈ g.nodes ∧ c ∈ g.dependencies n.id ∧ (g.waitingFor done n.id).length = 1 := by
    intro n
    rw [List.mem_filter, mem_inOrder hg.ids, mem_dependents, decide_eq_true_eq, and_assoc]
    norm_cast
  constructor
  · rw [List.map_append]
    refine List.nodup_append.2 ⟨h.nodup, ?_, ?_⟩
    · have hids := (hg.nodup_dependents c).sublist (ids_inOrder_sublist g.nodes _)
      exact hids.sublist (List.filter_sublist.map _)
    · rintro _ hold _ hopened rfl
      obtain ⟨a, ha, hid⟩ := List.mem_map.1 hold
      obtain ⟨b, hb, rfl⟩ := List.mem_map.1 hopened
      obtain ⟨hga, hnil⟩ := (h.mem a).1 ha
      obtain ⟨hgb, -, hone⟩ := (hnew b).1 hb
      rw [eq_of_id_eq hg.ids hga hgb hid] at hnil
      simp [hnil] at hone
  · intro n
    rw [List.mem_append, h.mem, hnew]
    constructor
    · rintro (⟨hn, hnil⟩ | ⟨hn, hdep, hone⟩)
      · exact ⟨hn, by rw [waitingFor_append, hnil, List.filter_nil]⟩
      · have hlen := hg.length_waitingFor_append hdep hc
        exact ⟨hn, List.length_eq_zero_iff.1 (by omega)⟩
    · rintro ⟨hn, hnil⟩
      by_cases hdep : c ∈ g.dependencies n.id
      · have hlen := hg.length_waitingFor_append hdep hc
        rw [hnil, List.length_nil] at hlen
        exact Or.inr ⟨hn, hdep, hlen⟩
      · rw [waitingFor_append_of_notMem hdep] at hnil
        exact Or.inl ⟨hn, hnil⟩

end Graph

namespace GraphRun

/-! ### Counting down -/

def counters (nodes : List Node) (f : NodeId → Int) : List (NodeId × Int) :=
  nodes.map fun n => (n.id, f n.id)

theorem lookup_counters {nodes : List Node} (f : NodeId → Int) {n : Node} (h : n ∈ nodes) :
    (counters nodes f).lookup n.id = some (f n.id) := by
  induction nodes with
  | nil => cases h
  | cons m rest ih =>
    unfold counters at ih ⊢
    rw [List.map_cons, List.lookup_cons]
    by_cases he : n.id = m.id
    · simp [he]
    · have hne : n ≠ m := fun h => he (h ▸ rfl)
      rw [beq_false_of_ne he]
      exact ih ((List.mem_cons.1 h).resolve_left hne)

theorem countDown_counters {nodes : List Node} {r : GraphRun} {f : NodeId → Int}
    (hp : r.pending = counters nodes f) {n : Node} (hn : n ∈ nodes) :
    r.countDown n =
      { r with
        pending := counters nodes fun id => if id = n.id then f id - 1 else f id
        ready := if f n.id = 1 then r.ready ++ [n] else r.ready } := by
  have hpending : ∀ down : NodeId × Int → NodeId × Int,
      (∀ id k, down (id, k) = if id = n.id then (id, k - 1) else (id, k)) →
      r.pending.map down = counters nodes fun id => if id = n.id then f id - 1 else f id := by
    intro down hdown
    rw [hp, counters, counters, List.map_map]
    apply List.map_congr_left
    intro m _
    simp only [Function.comp_apply, hdown]
    by_cases he : m.id = n.id
    · simp [he]
    · simp [he]
  have hzero : f n.id - 1 = 0 ↔ f n.id = 1 := by omega
  unfold countDown
  rw [hpending _ fun _ _ => rfl]
  simp only [lookup_counters _ hn, if_true, Option.some.injEq, hzero]

/-- All at once: every counter named goes down by one, and the nodes whose counter was one are
appended. -/
theorem foldl_countDown {nodes : List Node} (succs : List Node) (hsub : ∀ n ∈ succs, n ∈ nodes)
    (hnodup : (succs.map (·.id)).Nodup) {r : GraphRun} {f : NodeId → Int}
    (hp : r.pending = counters nodes f) :
    succs.foldl countDown r =
      { r with
        pending := counters nodes fun id => if id ∈ succs.map (·.id) then f id - 1 else f id
        ready := r.ready ++ succs.filter fun n => f n.id = 1 } := by
  induction succs generalizing r f with
  | nil => simp [← hp]
  | cons n rest ih =>
    obtain ⟨hn, hrest⟩ := List.forall_mem_cons.1 hsub
    obtain ⟨hnot, hnodup⟩ := List.nodup_cons.1 hnodup
    have hne : ∀ m ∈ rest, m.id ≠ n.id := fun m hm he => hnot (List.mem_map.2 ⟨m, hm, he⟩)
    have hcounters : (counters nodes fun id =>
        if id ∈ rest.map (·.id) then (if id = n.id then f id - 1 else f id) - 1
        else if id = n.id then f id - 1 else f id) =
        counters nodes fun id => if id ∈ (n :: rest).map (·.id) then f id - 1 else f id := by
      apply List.map_congr_left
      intro m _
      simp only [List.map_cons, List.mem_cons]
      by_cases he : m.id = n.id
      · rw [he, if_neg hnot, if_pos rfl, if_pos (Or.inl rfl)]
      · simp only [he, if_false, false_or]
    have hready : (if f n.id = 1 then r.ready ++ [n] else r.ready) ++
        rest.filter (fun m => (if m.id = n.id then f m.id - 1 else f m.id) = 1) =
        r.ready ++ (n :: rest).filter fun m => f m.id = 1 := by
      have hfilter : rest.filter (fun m => (if m.id = n.id then f m.id - 1 else f m.id) = 1) =
          rest.filter fun m => f m.id = 1 :=
        List.filter_congr fun m hm => by rw [if_neg (hne m hm)]
      rw [hfilter, List.filter_cons]
      by_cases h1 : f n.id = 1 <;> simp [h1]
    rw [List.foldl_cons, countDown_counters hp hn,
      ih hrest hnodup (f := fun id => if id = n.id then f id - 1 else f id) rfl]
    simp only [hcounters, hready]

end GraphRun

/-! ### The books -/

namespace History

/-- The nodes whose completion has been taken in and was not fatal. -/
def completed (past : History) : List NodeId :=
  past.received.filterMap fun c => match c.outcome with
    | .ok _ => some c.node
    | .error _ => none

/-- The nodes that are ready or have been. -/
def offered (past : History) (r : GraphRun) : List Node :=
  past.dispatched.map (·.node) ++ past.dropped ++ r.ready

end History

theorem exists_partner {α β : Type} {R : α → β → Prop} {as : List α} {bs : List β}
    (h : List.Forall₂ R as bs) {a : α} (ha : a ∈ as) : ∃ b ∈ bs, R a b := by
  induction h with
  | nil => cases ha
  | cons hab _ ih =>
    rcases List.mem_cons.1 ha with rfl | ha
    · exact ⟨_, List.mem_cons_self, hab⟩
    · obtain ⟨b, hb, hr⟩ := ih ha
      exact ⟨b, List.mem_cons_of_mem _ hb, hr⟩

/-- The completion is the report of the job, which has finished. -/
def Completion.Of (c : Completion) (j : Job) : Prop := c.node = j.node.id ∧ j.phase = .finished c.outcome

namespace GraphRun

/-- What the scheduler of a run of `g` has kept count of, where `k` is the last job id of the run
before. -/
structure Orderly (g : Graph) (k : Nat) (past : History) (r : GraphRun) : Prop where
  graph : r.graph = g
  lastJob : r.lastJob = k + past.dispatched.length
  ids : past.dispatched.map (·.id) = List.range' (k + 1) past.dispatched.length
  pending : r.pending = counters g.nodes fun id => (g.waitingFor past.completed id).length
  opened : g.Opened past.completed (past.offered r)
  placed : ((r.jobs ++ past.reported).map (·.node)).Perm (past.dispatched.map (·.node))
  arrived : List.Forall₂ Completion.Of (past.received ++ r.reports) past.reported
  outstanding : r.outstanding + past.received.length = past.dispatched.length
  resolved : r.resolved = past.completed.length
  fatal : r.fatal = none ↔ ∀ c ∈ past.received, ∃ st, c.outcome = .ok st
  dropped : past.dropped ≠ [] → r.isStopped = true

variable {w : RunSetting} {g : Graph} {k : Nat} {past past' : History} {r r' : GraphRun} {m : Move}

theorem takeIn_error {c : Completion} {e : Failure} (h : c.outcome = .error e) :
    r.takeIn c = { r with outstanding := r.outstanding - 1, fatal := r.fatal <|> some e } := by
  unfold takeIn
  rw [h]

theorem takeIn_ok {c : Completion} {st : NodeState} (h : c.outcome = .ok st) {f : NodeId → Int}
    (hg : r.graph.WellFormed) (hp : r.pending = counters r.graph.nodes f) :
    ∃ executed failed, executed + failed = r.resolved + 1 ∧
      r.takeIn c = { r with
        outstanding := r.outstanding - 1
        executed := executed
        failed := failed
        pending := counters r.graph.nodes fun id =>
          if c.node ∈ r.graph.dependencies id then f id - 1 else f id
        ready := r.ready ++ (Graph.inOrder r.graph.nodes (r.graph.dependents c.node)).filter
          fun n => f n.id = 1 } := by
  have hsub : ∀ n ∈ Graph.inOrder r.graph.nodes (r.graph.dependents c.node), n ∈ r.graph.nodes :=
    fun n hn => Graph.mem_of_mem_inOrder hn
  have hnodup := (hg.nodup_dependents c.node).sublist (Graph.ids_inOrder_sublist r.graph.nodes _)
  have hcounters : (counters r.graph.nodes fun id =>
      if id ∈ (Graph.inOrder r.graph.nodes (r.graph.dependents c.node)).map (·.id) then f id - 1
      else f id) =
      counters r.graph.nodes fun id =>
        if c.node ∈ r.graph.dependencies id then f id - 1 else f id := by
    apply List.map_congr_left
    intro n hn
    have hiff : n.id ∈ (Graph.inOrder r.graph.nodes (r.graph.dependents c.node)).map (·.id) ↔
        c.node ∈ r.graph.dependencies n.id := by
      rw [← Graph.mem_dependents]
      constructor
      · intro hmem
        exact (Graph.ids_inOrder_sublist r.graph.nodes _).subset hmem
      · intro hdep
        exact List.mem_map_of_mem ((Graph.mem_inOrder hg.ids).2 ⟨hn, hdep⟩)
    simp only [hiff]
  have hfold : ∀ a : GraphRun, a.pending = counters r.graph.nodes f →
      (Graph.inOrder r.graph.nodes (r.graph.dependents c.node)).foldl countDown a = { a with
        pending := counters r.graph.nodes fun id =>
          if c.node ∈ r.graph.dependencies id then f id - 1 else f id
        ready := a.ready ++ (Graph.inOrder r.graph.nodes (r.graph.dependents c.node)).filter
          fun n => f n.id = 1 } :=
    fun a ha => (foldl_countDown _ hsub hnodup ha).trans (by rw [hcounters])
  unfold takeIn successors resolved
  rw [h]
  cases st with
  | executed =>
    refine ⟨r.executed + 1, r.failed, by omega, ?_⟩
    exact hfold { r with outstanding := r.outstanding - 1, executed := r.executed + 1 } hp
  | _ =>
    refine ⟨r.executed, r.failed + 1, by omega, ?_⟩
    exact hfold { r with outstanding := r.outstanding - 1, failed := r.failed + 1 } hp

theorem foldl_countDown_keeps (succs : List Node) (r : GraphRun) :
    (succs.foldl countDown r).state = r.state ∧ (succs.foldl countDown r).jobs = r.jobs ∧
      (succs.foldl countDown r).reports = r.reports ∧ (succs.foldl countDown r).fatal = r.fatal := by
  induction succs generalizing r with
  | nil => exact ⟨rfl, rfl, rfl, rfl⟩
  | cons n rest ih => exact ih (r.countDown n)

theorem takeIn_keeps (r : GraphRun) (c : Completion) :
    (r.takeIn c).state = r.state ∧ (r.takeIn c).jobs = r.jobs ∧ (r.takeIn c).reports = r.reports ∧
      (r.fatal.isSome = true → (r.takeIn c).fatal.isSome = true) := by
  cases h : c.outcome with
  | error e =>
    rw [takeIn_error h]
    refine ⟨rfl, rfl, rfl, ?_⟩
    intro hf
    obtain ⟨a, ha⟩ := Option.isSome_iff_exists.1 hf
    simp [ha]
  | ok st =>
    unfold takeIn
    rw [h]
    cases st with
    | _ =>
      simp only
      obtain ⟨hstate, hjobs, hreports, hfatal⟩ := foldl_countDown_keeps _ _
      rw [hstate, hjobs, hreports, hfatal]
      exact ⟨rfl, rfl, rfl, fun hf => hf⟩

/-- Neither a fatal failure nor a request to cancel is ever taken back. -/
theorem Step.stopped (hs : Step w past r m past' r') (h : r.isStopped = true) : r'.isStopped = true := by
  unfold isStopped at h ⊢
  rw [Bool.or_eq_true] at h ⊢
  cases hs with
  | work _ action => exact h.imp_right action.cancelled
  | cancel => exact Or.inr rfl
  | @receive c rest =>
    obtain ⟨hstate, -, -, hfatal⟩ := takeIn_keeps { r with reports := rest } c
    rw [hstate]
    exact h.imp_left hfatal
  | _ => exact h

theorem perm_append_right_comm {α : Type} (a b c : List α) : (a ++ b ++ c).Perm (a ++ c ++ b) := by
  rw [List.append_assoc, List.append_assoc]
  exact List.perm_append_comm.append_left a

namespace Orderly

theorem dispatched_nodup (h : Orderly g k past r) : (past.dispatched.map (·.node.id)).Nodup := by
  have hnodup := h.opened.nodup
  unfold History.offered at hnodup
  rw [List.append_assoc, List.map_append, List.map_map] at hnodup
  exact (List.nodup_append.1 hnodup).1

theorem placed_nodup (h : Orderly g k past r) :
    ((r.jobs ++ past.reported).map (·.node.id)).Nodup := by
  have hperm := h.placed.map (·.id)
  rw [List.map_map, List.map_map] at hperm
  exact hperm.nodup_iff.2 h.dispatched_nodup

theorem arrived_ids (h : Orderly g k past r) :
    (past.received ++ r.reports).map (·.node) = past.reported.map (·.node.id) := by
  have hids := h.arrived.imp fun _ _ hc => hc.1
  rwa [← List.forall₂_map_right_iff, ← List.forall₂_map_left_iff, List.forall₂_eq_eq_eq] at hids

theorem arrived_nodup (h : Orderly g k past r) :
    ((past.received ++ r.reports).map (·.node)).Nodup := by
  have hnodup := h.placed_nodup
  rw [List.map_append] at hnodup
  rw [h.arrived_ids]
  exact (List.nodup_append.1 hnodup).2.1

theorem outstanding_eq (h : Orderly g k past r) : r.outstanding = r.jobs.length + r.reports.length := by
  have hcount := h.outstanding
  have hplaced := h.placed.length_eq
  have harrived := h.arrived.length_eq
  simp only [List.length_map, List.length_append] at hplaced harrived
  omega

theorem node_mem (h : Orderly g k past r) {j : Job} (hj : j ∈ r.jobs ++ past.reported) :
    j.node ∈ past.dispatched.map (·.node) :=
  h.placed.mem_iff.1 (List.mem_map_of_mem hj)

theorem dispatched_mem (h : Orderly g k past r) {n : Node} (hn : n ∈ past.dispatched.map (·.node)) :
    n ∈ g.nodes ∧ g.waitingFor past.completed n.id = [] :=
  (h.opened.mem n).1 (List.mem_append_left _ (List.mem_append_left _ hn))

theorem mem_completed {id : NodeId} :
    id ∈ past.completed ↔ ∃ c ∈ past.received, c.node = id ∧ ∃ st, c.outcome = .ok st := by
  unfold History.completed
  rw [List.mem_filterMap]
  refine exists_congr fun c => and_congr_right ?_
  intro _
  cases hc : c.outcome <;> simp

/-- What is no node of the graph has not been dispatched. -/
theorem notMem_dispatched (h : Orderly g k past r) {id : NodeId} (hid : ∀ n ∈ g.nodes, n.id ≠ id) :
    id ∉ past.dispatched.map (·.node.id) := by
  intro hmem
  obtain ⟨j, hj, he⟩ := List.mem_map.1 hmem
  exact hid j.node (h.dispatched_mem (List.mem_map_of_mem hj)).1 he

/-- What a node that was dispatched depends on has completed. -/
theorem dependency_completed (h : Orderly g k past r) {n : Node} (hn : n ∈ past.dispatched.map (·.node))
    {d : NodeId} (hd : d ∈ g.dependencies n.id) : d ∈ past.completed := by
  by_contra hnot
  have hwaiting := Graph.mem_waitingFor.2 ⟨hd, hnot⟩
  rw [(h.dispatched_mem hn).2] at hwaiting
  cases hwaiting

/-- The node that is dispatched next has not been dispatched before. -/
theorem next_new (h : Orderly g k past r) {n : Node} {rest : List Node} (ready : r.ready = n :: rest) :
    n ∈ g.nodes ∧ n.id ∉ past.dispatched.map (·.node.id) := by
  have hn : n ∈ past.offered r := by simp [History.offered, ready]
  refine ⟨((h.opened.mem n).1 hn).1, ?_⟩
  have hnodup := h.opened.nodup
  rw [History.offered, ready, List.append_assoc, List.map_append, List.map_map] at hnodup
  intro hmem
  exact (List.nodup_append.1 hnodup).2.2 n.id hmem n.id (by simp) rfl

/-- The completion that the scheduler takes in next is that of a node which has not completed. -/
theorem next_notMem_completed (h : Orderly g k past r) {c : Completion} {rest : List Completion}
    (hr : r.reports = c :: rest) : c.node ∉ past.completed := by
  intro hmem
  obtain ⟨d, hd, hid, -⟩ := mem_completed.1 hmem
  have hnodup := h.arrived_nodup
  rw [hr, List.map_append, List.map_cons] at hnodup
  exact (List.nodup_append.1 hnodup).2.2 _ (List.mem_map_of_mem hd) _ List.mem_cons_self hid

theorem start {w : RunSetting} (hg : g.WellFormed) (s : RunState) :
    Orderly g k {} (GraphRun.start w g s k) where
  graph := rfl
  lastJob := rfl
  ids := rfl
  pending := by
    simp only [GraphRun.start, counters, History.completed, List.filterMap_nil, Graph.waitingFor_nil]
  opened := by
    constructor
    · exact hg.ids.sublist (List.filter_sublist.map _)
    · intro n
      simp [History.offered, History.completed, GraphRun.start, Graph.waitingFor_nil]
  placed := List.Perm.refl _
  arrived := .nil
  outstanding := rfl
  resolved := rfl
  fatal := by simp [GraphRun.start]
  dropped h := absurd rfl h

theorem dispatch (h : Orderly g k past r) {n : Node} {rest : List Node} (ready : r.ready = n :: rest)
    (going : r.isStopped = false) :
    Orderly g k { past with dispatched := past.dispatched ++ [{ id := r.lastJob + 1, node := n }] }
      { r with
        ready := rest
        lastJob := r.lastJob + 1
        jobs := r.jobs ++ [{ id := r.lastJob + 1, node := n }]
        outstanding := r.outstanding + 1 } := by
  have hperm : (History.offered
      { past with dispatched := past.dispatched ++ [{ id := r.lastJob + 1, node := n }] }
      { r with ready := rest }).Perm (past.offered r) := by
    simp only [History.offered, ready, List.map_append, List.map_singleton, List.append_assoc,
      List.singleton_append]
    exact List.perm_middle.symm.append_left _
  refine { h with lastJob := ?_, ids := ?_, opened := h.opened.perm hperm, placed := ?_,
                  outstanding := ?_, dropped := ?_ }
  · rw [h.lastJob, List.length_append, List.length_singleton, Nat.add_assoc]
  · rw [List.map_append, h.ids, List.length_append, List.length_singleton, List.range'_concat,
      List.map_singleton, h.lastJob, Nat.one_mul, Nat.add_right_comm]
  · refine ((perm_append_right_comm r.jobs [_] past.reported).map _).trans ?_
    have hplaced := h.placed.append_right [n]
    simpa using hplaced
  · have hcount := h.outstanding
    simp only [List.length_append, List.length_singleton]
    omega
  · intro hne
    rw [h.dropped hne] at going
    cases going

theorem report (h : Orderly g k past r) {front back : List Job} {j : Job}
    {outcome : Except Failure NodeState} (jobs : r.jobs = front ++ j :: back)
    (finished : j.phase = .finished outcome) :
    Orderly g k { past with reported := past.reported ++ [j] }
      { r with jobs := front ++ back, reports := r.reports ++ [⟨j.node.id, outcome⟩] } := by
  refine { h with placed := ?_, arrived := ?_, dropped := fun hne => h.dropped hne }
  · have hplaced := h.placed
    rw [jobs] at hplaced
    refine List.Perm.trans (List.Perm.map _ ?_) hplaced
    have hmoved := perm_append_right_comm front (back ++ past.reported) [j]
    simpa using hmoved
  · rw [← List.append_assoc]
    exact List.rel_append h.arrived (.cons ⟨rfl, finished⟩ .nil)

/-- One completion less is outstanding when it has been taken in. -/
theorem outstanding_receive (h : Orderly g k past r) {c : Completion} {rest : List Completion}
    (hr : r.reports = c :: rest) :
    r.outstanding - 1 + (past.received ++ [c]).length = past.dispatched.length := by
  have hcount := h.outstanding
  have hpositive := h.outstanding_eq
  rw [hr, List.length_cons] at hpositive
  rw [List.length_append, List.length_singleton]
  omega

theorem receive_error (h : Orderly g k past r) {c : Completion} {rest : List Completion} {e : Failure}
    (hr : r.reports = c :: rest) (hc : c.outcome = .error e)
    (hdropped : past.dropped ≠ [] → ({ r with reports := rest }.takeIn c).isStopped = true) :
    Orderly g k { past with received := past.received ++ [c] } ({ r with reports := rest }.takeIn c) := by
  have harrived := h.arrived
  rw [hr, List.append_cons] at harrived
  have hsame : History.completed { past with received := past.received ++ [c] } = past.completed := by
    simp [History.completed, hc]
  rw [takeIn_error hc] at hdropped ⊢
  refine { h with pending := ?_, opened := ?_, arrived := harrived, outstanding := h.outstanding_receive hr,
                  resolved := ?_, fatal := ?_, dropped := hdropped }
  · rw [hsame]
    exact h.pending
  · rw [hsame]
    exact h.opened
  · rw [hsame]
    exact h.resolved
  · apply iff_of_false (by simp)
    intro hall
    obtain ⟨st, hst⟩ := hall c (by simp)
    rw [hc] at hst
    cases hst

theorem receive_ok (hg : g.WellFormed) (h : Orderly g k past r) {c : Completion} {rest : List Completion}
    {st : NodeState} (hr : r.reports = c :: rest) (hc : c.outcome = .ok st)
    (hdropped : past.dropped ≠ [] → ({ r with reports := rest }.takeIn c).isStopped = true) :
    Orderly g k { past with received := past.received ++ [c] } ({ r with reports := rest }.takeIn c) := by
  have hnot := h.next_notMem_completed hr
  have harrived := h.arrived
  rw [hr, List.append_cons] at harrived
  have hmore : History.completed { past with received := past.received ++ [c] } =
      past.completed ++ [c.node] := by
    simp [History.completed, hc]
  obtain ⟨executed, failed, hsum, htake⟩ := takeIn_ok (r := { r with reports := rest }) hc
    (f := fun id => (g.waitingFor past.completed id).length) (by rw [h.graph]; exact hg)
    (by rw [h.graph]; exact h.pending)
  rw [htake] at hdropped ⊢
  refine { h with pending := ?_, opened := ?_, arrived := harrived, outstanding := h.outstanding_receive hr,
                  resolved := ?_, fatal := ?_, dropped := hdropped }
  · rw [hmore, h.graph]
    refine List.map_congr_left fun n _ => congrArg (Prod.mk n.id) ?_
    by_cases hdep : c.node ∈ g.dependencies n.id
    · have hlen := hg.length_waitingFor_append hdep hnot
      simp only [hdep, if_true]
      omega
    · simp only [hdep, if_false, Graph.waitingFor_append_of_notMem hdep]
  · rw [hmore]
    have hopened := h.opened.done hg hnot
    simpa only [History.offered, h.graph, List.append_assoc] using hopened
  · have hresolved := h.resolved
    rw [hmore, List.length_append, List.length_singleton, ← hresolved]
    exact hsum
  · refine h.fatal.trans ⟨?_, fun hall d hd => hall d (List.mem_append_left _ hd)⟩
    intro hall d hd
    rcases List.mem_append.1 hd with hd | hd
    · exact hall d hd
    · exact ⟨st, by rw [List.mem_singleton.1 hd, hc]⟩

theorem step (hg : g.WellFormed) (h : Orderly g k past r) (hs : Step w past r m past' r') :
    Orderly g k past' r' := by
  have hstopped : r.isStopped = true → r'.isStopped = true := hs.stopped
  cases hs with
  | @drop n rest ready stopped =>
    have hoffered : History.offered { past with dropped := past.dropped ++ [n] }
        { r with ready := rest } = past.offered r := by
      simp [History.offered, ready]
    exact { h with opened := by rw [hoffered]; exact h.opened, dropped := fun _ => stopped }
  | dispatch ready going => exact h.dispatch ready going
  | @work front j back s p jobs action =>
    refine { h with placed := ?_, dropped := fun hne => hstopped (h.dropped hne) }
    have hplaced := h.placed
    rw [jobs] at hplaced
    simpa using hplaced
  | report jobs finished => exact h.report jobs finished
  | @receive c rest ready reports =>
    have hdropped := fun hne => hstopped (h.dropped hne)
    cases hc : c.outcome with
    | error e => exact h.receive_error reports hc hdropped
    | ok st => exact h.receive_ok hg reports hc hdropped
  | cancel => exact { h with dropped := fun _ => by simp [isStopped] }

end Orderly

theorem Reached.orderly {allowed : Move → Prop} {s : RunState} (hg : g.WellFormed)
    (h : Reached allowed w (GraphRun.start w g s k) past r) : Orderly g k past r :=
  h.invariant (Orderly.start hg s) fun ho _ hs => ho.step hg hs

end GraphRun

end CalcCycle
