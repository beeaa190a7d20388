import CalcCycle.Proofs.Execution.Ownership
import CalcCycle.Proofs.Execution.Progress

/-! All jobs of a run together. The jobs of a graph own different nodes and different outputs, and what
a job reads has been written by jobs that have ended, so the jobs do not disturb one another: in every
reached state each of them fits, and no run ends in a fatal failure. -/

namespace CalcCycle.GraphRun

/-- The run of `g` that began with the tracker `t₀` and the values `V₀` has come to the values `V`. -/
structure Sound (w : RunSetting) (g : Graph) (t₀ : Tracker) (V₀ V : Values) (past : History)
    (r : GraphRun) : Prop where
  opened : r.state.caches.open? w.cache = some V
  fits : ∀ j ∈ r.jobs ++ past.reported, j.phase.Fits w r.state.tracker V j.node
  untouched : ∀ n ∈ g.nodes, n ∉ past.dispatched.map (·.node) → n.Untouched r.state.tracker V
  /-- Nodes of other graphs are left alone. -/
  nodes : ∀ id, id ∉ g.nodes.map (·.id) →
    r.state.tracker.state? id = t₀.state? id ∧ r.state.tracker.reason? id = t₀.reason? id
  /-- Values that no node of the graph produces are left alone. -/
  values : ∀ spec, (∀ n ∈ g.nodes, spec ∉ n.outputs) → V.get? spec = V₀.get? spec

/-- All calculations of the graph are tame. -/
def Tame (w : RunSetting) (g : Graph) : Prop :=
  ∀ n ∈ g.nodes, n.calculation.Tame w.containCrashes

variable {w : RunSetting} {g : Graph} {k : Nat} {t₀ : Tracker} {V₀ V : Values} {past past' : History}
  {r r' : GraphRun} {m : Move}

/-- The producer of what a job reads has reported. -/
theorem Orderly.producer_reported (hg : g.WellFormed) (h : Orderly g k past r) {j : Job}
    (hj : j ∈ r.jobs ++ past.reported) {a : Node} (ha : a ∈ g.nodes) {spec : Specification}
    (hin : spec ∈ j.node.inputs) (hout : spec ∈ a.outputs) : a.id ∈ past.reported.map (·.node.id) := by
  have hn := (h.dispatched_mem (h.node_mem hj)).1
  have hdep : a.id ∈ g.dependencies j.node.id := (hg.mem_dependencies hn).2 ⟨a, ha, rfl, spec, hin, hout⟩
  obtain ⟨c, hc, hid, -⟩ := mem_completed.1 (h.dependency_completed (h.node_mem hj) hdep)
  rw [← h.arrived_ids, ← hid]
  exact List.mem_map_of_mem (List.mem_append_left _ hc)

/-- A job at work is none of the others. -/
theorem Orderly.others (h : Orderly g k past r) {front back : List Job} {j : Job}
    (hjobs : r.jobs = front ++ j :: back) {i : Job} (hi : i ∈ front ++ back ++ past.reported) :
    i ∈ r.jobs ++ past.reported ∧ i.node.id ≠ j.node.id := by
  have hnodup := h.placed_nodup
  rw [hjobs] at hnodup ⊢
  have hperm : (front ++ j :: back ++ past.reported).Perm (j :: (front ++ back ++ past.reported)) := by
    rw [List.append_assoc, List.cons_append, List.append_assoc]
    exact List.perm_middle
  have hcons := ((hperm.map (·.node.id)).nodup_iff).1 hnodup
  rw [List.map_cons, List.nodup_cons] at hcons
  refine ⟨hperm.mem_iff.2 (List.mem_cons_of_mem _ hi), fun he => hcons.1 ?_⟩
  rw [← he]
  exact List.mem_map_of_mem hi

theorem Sound.work (htame : Tame w g) (hg : g.WellFormed) (ho : Orderly g k past r)
    (h : Sound w g t₀ V₀ V past r) {front back : List Job} {j : Job} {s : RunState} {p : Phase}
    (hjobs : r.jobs = front ++ j :: back) (action : Job.Action w r.state j s p) :
    ∃ V', Sound w g t₀ V₀ V' past
      { r with state := s, jobs := front ++ { j with phase := p } :: back } := by
  have hj : j ∈ r.jobs ++ past.reported := by simp [hjobs]
  have hmem := (ho.dispatched_mem (ho.node_mem hj)).1
  obtain ⟨V', hopen, hfits, hframe⟩ := action.fits (htame _ hmem)
    (fun _ hin => hg.not_mem_own_outputs hmem hin) h.opened (h.fits j hj)
  have hunaffected : ∀ n ∈ g.nodes, n.id ≠ j.node.id → n.Unaffected r.state.tracker V s.tracker V' := by
    intro n hn hne
    refine ⟨action.state?_of_ne hne, action.reason?_of_ne hne, fun spec hspec => hframe spec fun hout => ?_⟩
    exact hne (congrArg (·.id) (hg.eq_of_mem_outputs hn hmem hspec hout))
  refine ⟨V', hopen, ?_, ?_, ?_, ?_⟩
  · have hothers : ∀ i ∈ front ++ back ++ past.reported, i.phase.Fits w s.tracker V' i.node := by
      intro i hi
      obtain ⟨hi', hne⟩ := ho.others hjobs hi
      have hn := (ho.dispatched_mem (ho.node_mem hi')).1
      refine (h.fits i hi').frame (hunaffected _ hn hne) fun spec hin => hframe spec ?_
      intro hout
      -- the job would write what `i` reads, but then it would have reported
      obtain ⟨a, ha, hid⟩ := List.mem_map.1 (ho.producer_reported hg hi' hmem hin hout)
      exact (ho.others hjobs (List.mem_append_right _ ha)).2 hid
    intro i hi
    simp only [List.mem_append, List.mem_cons] at hi
    rcases hi with (hi | rfl | hi) | hi
    · exact hothers i (by simp [hi])
    · exact hfits
    · exact hothers i (by simp [hi])
    · exact hothers i (by simp [hi])
  · intro n hn hnot
    have hne : n.id ≠ j.node.id := fun he =>
      hnot (Graph.eq_of_id_eq hg.ids hn hmem he ▸ ho.node_mem hj)
    exact (h.untouched n hn hnot).frame (hunaffected n hn hne)
  · intro id hid
    have hne : id ≠ j.node.id := fun he => hid (he ▸ List.mem_map_of_mem hmem)
    obtain ⟨hstate, hreason⟩ := h.nodes id hid
    exact ⟨(action.state?_of_ne hne).trans hstate, (action.reason?_of_ne hne).trans hreason⟩
  · intro spec hspec
    rw [hframe spec (hspec _ hmem), h.values spec hspec]

theorem Sound.step (htame : Tame w g) (hg : g.WellFormed) (ho : Orderly g k past r)
    (h : Sound w g t₀ V₀ V past r) (hs : Step w past r m past' r') :
    ∃ V', Sound w g t₀ V₀ V' past' r' := by
  cases hs with
  | drop => exact ⟨V, h.opened, h.fits, h.untouched, h.nodes, h.values⟩
  | @dispatch n rest ready =>
    obtain ⟨hn, hid⟩ := ho.next_new ready
    have hnew : n ∉ past.dispatched.map (·.node) := by
      intro hmem
      have hids := List.mem_map_of_mem (f := (·.id)) hmem
      rw [List.map_map] at hids
      exact hid hids
    refine ⟨V, h.opened, ?_, ?_, h.nodes, h.values⟩
    · intro j hj
      simp only [List.mem_append, List.mem_singleton] at hj
      rcases hj with (hj | rfl) | hj
      · exact h.fits j (List.mem_append_left _ hj)
      · exact h.untouched n hn hnew
      · exact h.fits j (List.mem_append_right _ hj)
    · intro a ha hnot
      simp only [List.map_append, List.mem_append, not_or] at hnot
      exact h.untouched a ha hnot.1
  | work jobs action => exact h.work htame hg ho jobs action
  | report jobs finished =>
    refine ⟨V, h.opened, fun i hi => h.fits i ?_, h.untouched, h.nodes, h.values⟩
    rw [jobs]
    simp only [List.mem_append, List.mem_cons] at hi ⊢
    tauto
  | @receive c rest =>
    obtain ⟨hstate, hjobs, -, -⟩ := takeIn_keeps { r with reports := rest } c
    refine ⟨V, ?_, ?_, ?_, ?_, h.values⟩
    all_goals rw [hstate]
    · exact h.opened
    · rw [hjobs]
      exact h.fits
    · exact h.untouched
    · exact h.nodes
  | cancel => exact ⟨V, h.opened, h.fits, h.untouched, h.nodes, h.values⟩

theorem Sound.start {s : RunState} (k : Nat) (hopen : s.caches.open? w.cache = some V₀)
    (hnew : ∀ n ∈ g.nodes, n.Untouched s.tracker V₀) :
    Sound w g s.tracker V₀ V₀ {} (GraphRun.start w g s k) :=
  ⟨hopen, by simp [GraphRun.start], fun n hn _ => hnew n hn, fun _ _ => ⟨rfl, rfl⟩, fun _ _ => rfl⟩

theorem Reached.sound {allowed : Move → Prop} {s : RunState} (htame : Tame w g) (hg : g.WellFormed)
    (hopen : s.caches.open? w.cache = some V₀) (hnew : ∀ n ∈ g.nodes, n.Untouched s.tracker V₀)
    (h : Reached allowed w (GraphRun.start w g s k) past r) : ∃ V, Sound w g s.tracker V₀ V past r := by
  apply h.invariant_along (P := fun past r => ∃ V, Sound w g s.tracker V₀ V past r) ⟨V₀, .start k hopen hnew⟩
  rintro past r m past' r' before ⟨V, hV⟩ - hstep
  exact hV.step htame hg (before.orderly hg) hstep

/-! ### The end of a run -/

theorem Sound.no_fatal (ho : Orderly g k past r) (h : Sound w g t₀ V₀ V past r) : r.fatal = none := by
  apply ho.fatal.2
  intro c hc
  obtain ⟨j, hj, -, hphase⟩ := exists_partner ho.arrived (List.mem_append_left _ hc)
  have hfits := h.fits j (List.mem_append_right _ hj)
  rw [hphase] at hfits
  obtain ⟨v, -, hok⟩ := hfits
  exact ⟨v.state, hok⟩

/-- Where a run is over, every node that was dispatched has ended. -/
theorem Sound.ended (ho : Orderly g k past r) (h : Sound w g t₀ V₀ V past r) (hdone : r.isDone = true)
    {n : Node} (hn : n ∈ past.dispatched.map (·.node)) : ∃ v, n.Ended w r.state.tracker V v := by
  obtain ⟨j, hj, rfl, outcome, hphase⟩ := ho.finished hdone hn
  have hfits := h.fits j (List.mem_append_right _ hj)
  rw [hphase] at hfits
  obtain ⟨v, hended, -⟩ := hfits
  exact ⟨v, hended⟩

/-- The run when the listener has been told that it is over. -/
def closed (w : RunSetting) (g : Graph) (r : GraphRun) : GraphRun :=
  { r with state := r.state.notify w (.graphCompleted g.target) }

/-- A cycle that is not cancelled when the listener has been told was not before. -/
theorem going_of_closed (h : (r.closed w g).state.cancelled = false) : r.state.cancelled = false := by
  simp only [closed, RunState.notify, Bool.or_eq_false_iff] at h
  exact h.1

theorem fatal_of_result {report : GraphReport} (h : (r.closed w g).result = .ok report) : r.fatal = none := by
  unfold result at h
  split at h
  · cases h
  · next hfatal => exact hfatal

theorem result_of_fatal {e : Failure} (hfatal : r.fatal = some e) : (r.closed w g).result = .error e := by
  simp [result, closed, hfatal]

/-- A run that is over reports if there was no fatal failure, whether or not the cycle has been cancelled. -/
theorem Orderly.closed_result (hg : g.WellFormed) (h : Orderly g k past r) (hdone : r.isDone = true)
    (hfatal : r.fatal = none) : (r.closed w g).result = .ok r.summary := by
  unfold GraphRun.result
  rw [show (r.closed w g).fatal = none from hfatal]
  cases hc : (r.closed w g).state.cancelled with
  | true => simp [closed, summary, GraphRun.resolved]
  | false =>
    have hgoing : r.isStopped = false := by simp [isStopped, going_of_closed hc, hfatal]
    have hlength := (h.dispatched_perm hg hdone hgoing).length_eq
    have hreceived := (h.received_perm hdone).length_eq
    have hresolved := h.resolved
    rw [h.completed_of_no_fatal hfatal] at hresolved
    simp only [List.length_map] at hlength hreceived hresolved
    have hall : (r.closed w g).resolved = (r.closed w g).graph.nodes.length := by
      change r.resolved = r.graph.nodes.length
      rw [hresolved, hreceived, hlength, h.graph]
    exact if_neg fun hstalled => hstalled.2 hall

theorem Orderly.fatal_of_error (hg : g.WellFormed) (h : Orderly g k past r) (hdone : r.isDone = true)
    {e : Failure} (herror : (r.closed w g).result = .error e) : r.fatal = some e := by
  cases hfatal : r.fatal with
  | none =>
    rw [h.closed_result hg hdone hfatal] at herror
    cases herror
  | some first =>
    rw [result_of_fatal hfatal] at herror
    cases herror
    rfl

theorem Sound.result (hg : g.WellFormed) (ho : Orderly g k past r) (h : Sound w g t₀ V₀ V past r)
    (hdone : r.isDone = true) : (r.closed w g).result = .ok r.summary :=
  ho.closed_result hg hdone (h.no_fatal ho)

/-- A node of another graph is not concerned. -/
theorem Sound.elsewhere (h : Sound w g t₀ V₀ V past r) {n : Node} (hid : ∀ a ∈ g.nodes, a.id ≠ n.id)
    (hout : ∀ a ∈ g.nodes, a.Apart n) : n.Unaffected t₀ V₀ r.state.tracker V := by
  have hnot : n.id ∉ g.nodes.map (·.id) := fun hmem => by
    obtain ⟨a, ha, he⟩ := List.mem_map.1 hmem
    exact hid a ha he
  obtain ⟨hstate, hreason⟩ := h.nodes n.id hnot
  exact ⟨hstate, hreason, fun spec hspec => h.values spec fun a ha hmem => hout a ha spec hmem hspec⟩

end CalcCycle.GraphRun
