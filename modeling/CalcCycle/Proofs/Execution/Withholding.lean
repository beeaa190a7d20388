import CalcCycle.Proofs.Execution.Halting
import CalcCycle.Proofs.Execution.Starving

/-! What a node leaves behind that has not been executed. A job writes nothing before it has all values of its node,
and nothing then keeps it from writing all of them and marking its node but the end of the cache. So the cache has
no output of a node that is not executed in the end, whatever the calculations answer and whoever cancels. -/

namespace CalcCycle

/-- The cache has no output of the node, as long as it is open. -/
def Node.Withheld (n : Node) (s : CacheStore) (h : CacheHandle) : Prop := ∀ spec ∈ n.outputs, s.Lacks h spec

/-- The node is executed, or the cache has no output of it. -/
def Node.Discreet (n : Node) (s : RunState) (h : CacheHandle) : Prop :=
  s.tracker.state? n.id = some .executed ∨ n.Withheld s.caches h

namespace CacheStore
variable {s s' : CacheStore} {h : CacheHandle} {spec : Specification} {v : Computed}

theorem lacks_of_closed (hclosed : s.open? h = none) : s.Lacks h spec := by
  intro V hopen
  rw [hclosed] at hopen
  cases hopen

/-- Only a closed cache refuses a value that it lacks. -/
theorem Lacks.closed_of_refused {e : CacheError} (hl : s.Lacks h v.specification) (hwrite : s.write h v = .error e) :
    s.open? h = none := by
  cases hopen : s.open? h with
  | none => rfl
  | some V =>
    obtain ⟨s', hwritten, -⟩ := write_of_open hopen (hl V hopen)
    rw [hwrite] at hwritten
    cases hwritten

end CacheStore

section Frame
variable {w : RunSetting} {s s' : RunState} {jobs : List Job} {n : Node} {spec : Specification}

theorem RunState.Confined.lacks (h : RunState.Confined w s jobs s') (hout : ∀ j ∈ jobs, spec ∉ j.node.outputs)
    (hl : s.caches.Lacks w.cache spec) : s'.caches.Lacks w.cache spec := by
  intro V' hopen'
  obtain ⟨V, hopen, hsame⟩ := h.values V' hopen'
  rw [hsame spec hout]
  exact hl V hopen

theorem Node.Withheld.frame (hn : n.Withheld s.caches w.cache) (h : RunState.Confined w s jobs s')
    (hapart : ∀ j ∈ jobs, n.Apart j.node) : n.Withheld s'.caches w.cache := fun spec hspec =>
  h.lacks (fun j hj => hapart j hj spec hspec) (hn spec hspec)

theorem Node.Discreet.frame (hn : n.Discreet s w.cache) (h : RunState.Confined w s jobs s')
    (hid : n.id ∉ jobs.map (·.node.id)) (hapart : ∀ j ∈ jobs, n.Apart j.node) : n.Discreet s' w.cache :=
  hn.imp (h.nodes n.id hid).1.trans fun hw => hw.frame h hapart

end Frame

/-- A job of the node has written nothing but what it goes on to complete, and then it marks the node. -/
def Phase.Withholds (w : RunSetting) (s : RunState) (n : Node) : Phase → Prop
  | .queued | .failing _ => n.Withheld s.caches w.cache
  | .begun | .reading .. | .ready _ => s.tracker.state? n.id = some .executing ∧ n.Withheld s.caches w.cache
  | .writing rest => s.tracker.state? n.id = some .executing ∧ (rest.map (·.specification)).Nodup ∧
      ∀ v ∈ rest, v.specification ∈ n.outputs ∧ s.caches.Lacks w.cache v.specification
  | .settled _ | .finished _ => n.Discreet s w.cache

theorem Phase.Withholds.frame {w : RunSetting} {s s' : RunState} {jobs : List Job} {n : Node} {p : Phase}
    (hp : p.Withholds w s n) (h : RunState.Confined w s jobs s') (hid : n.id ∉ jobs.map (·.node.id))
    (hapart : ∀ j ∈ jobs, n.Apart j.node) : p.Withholds w s' n := by
  have hstate := (h.nodes n.id hid).1
  cases p with
  | queued | failing => exact Node.Withheld.frame hp h hapart
  | begun | reading | ready => exact ⟨hstate.trans hp.1, hp.2.frame h hapart⟩
  | writing rest =>
    refine ⟨hstate.trans hp.1, hp.2.1, fun v hv => ?_⟩
    obtain ⟨hout, hl⟩ := hp.2.2 v hv
    exact ⟨hout, h.lacks (fun j hj => hapart j hj _ hout) hl⟩
  | settled | finished => exact Node.Discreet.frame hp h hid hapart

/-- An action of a job that withholds. -/
theorem Job.Action.withholds {w : RunSetting} {s s' : RunState} {j : Job} {p : Phase}
    (hj : j.phase.Withholds w s j.node) (h : Job.Action w s j s' p) : p.Withholds w s' j.node := by
  cases h with
  | start phase moved =>
    rw [phase] at hj
    exact ⟨(Tracker.begin_ok moved).1.state?_self, hj⟩
  | announce phase | read phase | miss phase | complete phase =>
    rw [phase] at hj
    exact hj
  | incomplete phase =>
    rw [phase] at hj
    exact hj.2
  | refuseRead phase =>
    rw [phase] at hj
    exact Or.inr hj.2
  | @call inputs reply phase =>
    rw [phase] at hj
    obtain ⟨hstate, hwithheld⟩ := hj
    have htracker := (foldl_interrupt w reply.interrupts
      { s with calls := s.calls ++ [⟨j.node.id, j.id, inputs⟩] }).1
    -- the calculation may close the cache, but it writes nothing
    have hlacks : j.node.Withheld (reply.interrupts.foldl (RunState.interrupt w)
        { s with calls := s.calls ++ [⟨j.node.id, j.id, inputs⟩] }).caches w.cache := by
      intro spec hspec V hopen
      rw [Interrupt.caches_foldl] at hopen
      exact hwithheld spec hspec V (Interrupt.open_of_onCaches hopen)
    rcases afterCall_cases w j.node reply.outcome with ⟨vs, -, hvalid, he⟩ | ⟨text, he⟩ | ⟨-, e, he⟩
    · rw [he]
      obtain ⟨hdeclared, hnodup⟩ := validate_ok hvalid
      refine ⟨?_, hnodup, fun v hv => ⟨hdeclared v hv, hlacks _ (hdeclared v hv)⟩⟩
      rw [htracker]
      exact hstate
    · rw [he]
      exact hlacks
    · rw [he]
      exact Or.inr hlacks
  | @write v rest caches phase written =>
    rw [phase] at hj
    obtain ⟨hstate, hnodup, hrest⟩ := hj
    obtain ⟨hnew, hnodup⟩ := List.nodup_cons.1 hnodup
    refine ⟨hstate, hnodup, fun u hu => ?_⟩
    obtain ⟨hout, hl⟩ := hrest u (List.mem_cons_of_mem _ hu)
    have hne : v.specification ≠ u.specification := fun he => hnew (List.mem_map.2 ⟨u, hu, he.symm⟩)
    exact ⟨hout, hl.write hne written⟩
  | refuseWrite phase refused =>
    rw [phase] at hj
    have hclosed := (hj.2.2 _ List.mem_cons_self).2.closed_of_refused refused
    exact Or.inr fun spec _ => CacheStore.lacks_of_closed hclosed
  | succeed phase moved => exact Or.inl (Tracker.markExecuted_ok moved).1.state?_self
  | refuseSuccess phase refused =>
    rw [phase] at hj
    obtain ⟨t, ht⟩ := Tracker.exists_markExecuted hj.1
    rw [ht] at refused
    cases refused
  | fail phase | refuseStart phase | refuseFailure phase =>
    rw [phase] at hj
    exact Or.inr hj
  | close phase =>
    rw [phase] at hj
    exact hj

namespace GraphRun
variable {w : RunSetting} {g : Graph} {k : Nat} {past past' : History} {r r' : GraphRun} {m : Move} {s : RunState}
  {allowed : Move → Prop} {n : Node}

/-- All jobs withhold. -/
def Withholding (w : RunSetting) (past : History) (r : GraphRun) : Prop :=
  ∀ j ∈ r.jobs ++ past.reported, j.phase.Withholds w r.state j.node

/-- Nothing is written of a node that the jobs of the graph are apart from. -/
theorem Reached.withheld_apart (hg : g.WellFormed) (h : Reached allowed w (.start w g s k) past r)
    (hapart : ∀ m ∈ g.nodes, m.id ∈ past.dispatched.map (·.node.id) → n.Apart m) (hn : n.Withheld s.caches w.cache) :
    n.Withheld r.state.caches w.cache :=
  hn.frame (h.confined hg) fun _ hj =>
    hapart _ ((h.orderly hg).dispatched_mem (List.mem_map_of_mem hj)).1 (List.mem_map_of_mem hj)

/-- A node that has not been dispatched has not been written of. -/
theorem Reached.withheld (hg : g.WellFormed) (hnew : ∀ n ∈ g.nodes, n.Withheld s.caches w.cache)
    (h : Reached allowed w (.start w g s k) past r) (hn : n ∈ g.nodes)
    (hnot : n.id ∉ past.dispatched.map (·.node.id)) : n.Withheld r.state.caches w.cache := by
  refine h.withheld_apart hg (fun m hm hdispatched => hg.apart.forall hn hm ?_) (hnew n hn)
  rintro rfl
  exact hnot hdispatched

theorem Withholding.step (hg : g.WellFormed) (ho : Orderly g k past r)
    (ht : ∀ j ∈ r.jobs, j.phase.Traced (fun _ => False) .empty j.node)
    (hnew : ∀ n ∈ g.nodes, n.id ∉ past.dispatched.map (·.node.id) → n.Withheld r.state.caches w.cache)
    (h : Withholding w past r) (hs : Step w past r m past' r') : Withholding w past' r' := by
  cases hs with
  | drop => exact h
  | cancel =>
    intro j hj
    have hconfined : RunState.Confined w r.state [] { r.state with cancelled := true } :=
      ⟨fun _ _ => ⟨rfl, rfl⟩, fun V' ho => ⟨V', ho, fun _ _ => rfl⟩⟩
    exact (h j hj).frame hconfined (by simp) (by simp)
  | @dispatch n rest ready =>
    intro j hj
    simp only [List.mem_append, List.mem_singleton] at hj
    rcases hj with (hj | rfl) | hj
    · exact h j (List.mem_append_left _ hj)
    · obtain ⟨hn, hnot⟩ := ho.next_new ready
      exact hnew n hn hnot
    · exact h j (List.mem_append_right _ hj)
  | @work front j back s' p jobs action =>
    have hj : j ∈ r.jobs ++ past.reported := by simp [jobs]
    have hself : p.Withholds w s' j.node := action.withholds (h j hj)
    have hconfined := action.confined (ht j (by simp [jobs]))
    have hothers : ∀ i ∈ front ++ back ++ past.reported, i.phase.Withholds w s' i.node := by
      intro i hi
      obtain ⟨hi', hne⟩ := ho.others jobs hi
      refine (h i hi').frame hconfined (by simpa using hne) (List.forall_mem_singleton.2 ?_)
      refine hg.apart.forall (ho.dispatched_mem (ho.node_mem hi')).1 (ho.dispatched_mem (ho.node_mem hj)).1 ?_
      exact fun he => hne (congrArg (·.id) he)
    intro i hi
    simp only [List.mem_append, List.mem_cons] at hi
    rcases hi with (hi | rfl | hi) | hi
    · exact hothers i (by simp [hi])
    · exact hself
    · exact hothers i (by simp [hi])
    · exact hothers i (by simp [hi])
  | report jobs =>
    intro i hi
    refine h i ?_
    rw [jobs]
    simp only [List.mem_append, List.mem_cons] at hi ⊢
    tauto
  | @receive c rest =>
    obtain ⟨hstate, hjobs, -⟩ := takeIn_keeps { r with reports := rest } c
    unfold Withholding
    rw [hstate, hjobs]
    exact h

theorem Reached.withholding (hg : g.WellFormed) (hnew : ∀ n ∈ g.nodes, n.Withheld s.caches w.cache)
    (h : Reached allowed w (.start w g s k) past r) : Withholding w past r := by
  apply h.invariant_along (P := Withholding w) (by simp [Withholding, GraphRun.start])
  intro past r m past' r' before hwithholding _ hstep
  have ht : Traced w (fun _ => False) .empty g.nodes s.calls r :=
    before.traced hg (fun _ _ _ _ => id) fun _ _ _ => False.elim
  exact hwithholding.step hg (before.orderly hg) ht.jobs (fun n hn hnot => before.withheld hg hnew hn hnot) hstep

/-- At the end of a run, a node is executed or nothing of it has been written. -/
theorem Reached.discreet (hg : g.WellFormed) (hnew : ∀ n ∈ g.nodes, n.Withheld s.caches w.cache)
    (h : Reached allowed w (.start w g s k) past r) (hdone : r.isDone = true) (hn : n ∈ g.nodes) :
    n.Discreet r.state w.cache := by
  by_cases hdispatched : n.id ∈ past.dispatched.map (·.node.id)
  · obtain ⟨i, hi, hid⟩ := List.mem_map.1 hdispatched
    have ho := h.orderly hg
    have hmem : i.node ∈ past.dispatched.map (·.node) := List.mem_map_of_mem hi
    obtain rfl := Graph.eq_of_id_eq hg.ids (ho.dispatched_mem hmem).1 hn hid
    obtain ⟨j, hj, hnode, outcome, hphase⟩ := ho.finished hdone hmem
    have hwithholds := h.withholding hg hnew j (List.mem_append_right _ hj)
    rw [hphase, hnode] at hwithholds
    exact hwithholds
  · exact Or.inr (h.withheld hg hnew hn hdispatched)

end GraphRun

end CalcCycle
