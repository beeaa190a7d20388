import CalcCycle.Proofs.Execution.Soundness

/-! What a listener hears of the nodes of a graph, and where the tracker has them at that time. The two go
together, job by job and action by action, whatever the calculations, the cache and the listener do: of a
node that has not been dispatched nothing is heard, and of a node that has ended first its dispatch and then
its end. A job that is broken off leaves its node executing, and its end is never heard. -/

namespace CalcCycle

/-- The node that the event is about, if it is about one. -/
def Event.node? : Event → Option NodeId
  | nodeDispatched n _ => some n
  | nodeCompleted n _ => some n
  | _ => none

/-- Those of the events that are about the node, in order. -/
def hearing (id : NodeId) (events : List Event) : List Event := events.filter (·.node? = some id)

theorem hearing_append (id : NodeId) (a b : List Event) : hearing id (a ++ b) = hearing id a ++ hearing id b :=
  List.filter_append ..

theorem mem_hearing {id : NodeId} {events : List Event} {e : Event} :
    e ∈ hearing id events ↔ e ∈ events ∧ e.node? = some id := by
  simp [hearing]

theorem hearing_eq_nil {id : NodeId} {events : List Event} (h : ∀ e ∈ events, e.node? ≠ some id) :
    hearing id events = [] := by
  simpa [hearing, List.filter_eq_nil_iff] using h

/-- What there is to hear of a node that stands in the state, where `job` is the job that runs it. -/
def NodeState.tale (id : NodeId) (job : Nat) : NodeState → List Event
  | .notStarted => []
  | .executing => [.nodeDispatched id job]
  | st => [.nodeDispatched id job, .nodeCompleted id st]

theorem NodeState.tale_of_terminal {st : NodeState} (h : st.isTerminal = true) (id : NodeId) (job : Nat) :
    st.tale id job = [.nodeDispatched id job, .nodeCompleted id st] := by
  cases st with
  | executed | failed => rfl
  | notStarted | executing => cases h

/-- What breaks off a job in the middle: the cache refuses it, or its calculation crashes and crashes are not
contained. -/
def Node.BrokenBy (contain : Bool) (n : Node) (e : Failure) : Prop :=
  (∃ reason, e = .cache reason) ∨
    contain = false ∧ ∃ message, e = .invariant ("function " ++ n.calculation.name ++ " panicked on " ++
      n.target.text ++ ": " ++ Job.crashText message)

/-- Where the tracker has the node of a job in the phase, and what has been heard of it. -/
def Phase.Told (contain : Bool) (t : Tracker) (heard : List Event) (n : Node) (job : Nat) : Phase → Prop
  | .queued => t.state? n.id = some .notStarted ∧ heard = []
  | .begun => t.state? n.id = some .executing ∧ heard = []
  | .settled st => st.isTerminal = true ∧ t.state? n.id = some st ∧ heard = [.nodeDispatched n.id job]
  | .finished (.ok st) => st.isTerminal = true ∧ t.state? n.id = some st ∧
      heard = [.nodeDispatched n.id job, .nodeCompleted n.id st]
  | .finished (.error e) => t.state? n.id = some .executing ∧ heard = [.nodeDispatched n.id job] ∧
      n.BrokenBy contain e
  | _ => t.state? n.id = some .executing ∧ heard = [.nodeDispatched n.id job]

theorem Phase.Told.frame {contain : Bool} {t t' : Tracker} {heard : List Event} {n : Node} {job : Nat}
    {p : Phase} (h : p.Told contain t heard n job) (hstate : t'.state? n.id = t.state? n.id) :
    p.Told contain t' heard n job := by
  unfold Told at h ⊢
  rwa [hstate]

namespace Job

/-- What the next action of the job tells the listener. -/
def news (j : Job) : List Event :=
  match j.phase with
  | .begun => [.nodeDispatched j.node.id j.id]
  | .settled st => [.nodeCompleted j.node.id st]
  | _ => []

theorem node?_of_news {j : Job} {e : Event} (h : e ∈ j.news) : e.node? = some j.node.id := by
  unfold news at h
  split at h
  · rw [List.mem_singleton.1 h]
    rfl
  · rw [List.mem_singleton.1 h]
    rfl
  · cases h

theorem hearing_news (j : Job) : hearing j.node.id j.news = j.news := by
  unfold hearing
  rw [List.filter_eq_self]
  intro e he
  simpa using node?_of_news he

theorem hearing_news_of_ne {j : Job} {id : NodeId} (h : id ≠ j.node.id) : hearing id j.news = [] := by
  apply hearing_eq_nil
  intro e he hid
  rw [node?_of_news he] at hid
  exact h (Option.some.inj hid).symm

theorem foldl_interrupt_events (w : RunSetting) (l : List Interrupt) (s : RunState) :
    (l.foldl (RunState.interrupt w) s).events = s.events := by
  induction l generalizing s with
  | nil => rfl
  | cons i rest ih =>
    rw [List.foldl_cons, ih]
    cases i <;> rfl

theorem afterCall_told {w : RunSetting} {t : Tracker} {n : Node} {job : Nat} {heard : List Event}
    (hstate : t.state? n.id = some .executing) (hheard : heard = [.nodeDispatched n.id job]) (o : Outcome) :
    (afterCall w n o).Told w.containCrashes t heard n job := by
  cases o with
  | values vs =>
    cases hvalid : validate n vs with
    | ok u =>
      simp only [afterCall, hvalid]
      exact ⟨hstate, hheard⟩
    | error f =>
      simp only [afterCall, hvalid]
      exact ⟨hstate, hheard⟩
  | fault f => exact ⟨hstate, hheard⟩
  | crash message =>
    cases hcontain : w.containCrashes with
    | true =>
      simp only [afterCall, hcontain, if_true]
      exact ⟨hstate, hheard⟩
    | false =>
      simp only [afterCall, hcontain, Bool.false_eq_true, if_false]
      exact ⟨hstate, hheard, Or.inr ⟨rfl, message, rfl⟩⟩

namespace Action
variable {w : RunSetting} {s s' : RunState} {j : Job} {p : Phase} {heard : List Event}

theorem events (h : Action w s j s' p) : s'.events = s.events ++ j.news := by
  cases h with
  | announce phase | close phase => simp [news, phase, RunState.notify]
  | call phase => simp [news, phase, foldl_interrupt_events]
  | start phase | refuseStart phase | read phase | miss phase | refuseRead phase | complete phase
  | incomplete phase | write phase | refuseWrite phase | succeed phase | refuseSuccess phase | fail phase
  | refuseFailure phase => simp [news, phase]

/-- An action moves the node and tells the listener so that both go together again. The tracker refuses
nothing. -/
theorem told (h : Action w s j s' p) (hj : j.phase.Told w.containCrashes s.tracker heard j.node j.id) :
    p.Told w.containCrashes s'.tracker (heard ++ j.news) j.node j.id := by
  cases h with
  | start phase moved =>
    rw [phase] at hj
    rw [hj.2, news, phase]
    exact ⟨(Tracker.begin_ok moved).1.state?_self, rfl⟩
  | refuseStart phase refused =>
    -- the tracker refuses a state out of turn only, and the phase tells that it is not
    rw [phase] at hj
    obtain ⟨t, ht⟩ := Tracker.exists_begin hj.1
    rw [ht] at refused
    cases refused
  | announce phase =>
    rw [phase] at hj
    rw [hj.2, news, phase]
    exact ⟨hj.1, rfl⟩
  | read phase | miss phase | complete phase | incomplete phase | write phase =>
    rw [phase] at hj
    rw [news, phase, List.append_nil]
    exact hj
  | @refuseRead _ _ _ _ e phase | @refuseWrite _ _ e phase =>
    rw [phase] at hj
    rw [news, phase, List.append_nil]
    exact ⟨hj.1, hj.2, Or.inl ⟨e, rfl⟩⟩
  | @call inputs reply phase =>
    rw [phase] at hj
    rw [news, phase, List.append_nil, (foldl_interrupt w _ _).1]
    exact afterCall_told hj.1 hj.2 reply.outcome
  | succeed phase moved =>
    rw [phase] at hj
    rw [hj.2, news, phase]
    exact ⟨rfl, (Tracker.markExecuted_ok moved).1.state?_self, rfl⟩
  | refuseSuccess phase refused =>
    rw [phase] at hj
    obtain ⟨t, ht⟩ := Tracker.exists_markExecuted hj.1
    rw [ht] at refused
    cases refused
  | fail phase moved =>
    rw [phase] at hj
    rw [hj.2, news, phase]
    exact ⟨rfl, (Tracker.markFailed_ok moved).1.state?_self, rfl⟩
  | @refuseFailure reason e phase refused =>
    rw [phase] at hj
    obtain ⟨t, ht⟩ := Tracker.exists_markFailed reason hj.1
    rw [ht] at refused
    cases refused
  | close phase =>
    rw [phase] at hj
    obtain ⟨hterminal, hstate, hheard⟩ := hj
    rw [hheard, news, phase]
    exact ⟨hterminal, hstate, rfl⟩

end Action

end Job

namespace GraphRun

/-- Every node of the graph is dispatched after the listener has heard the end of all nodes that it depends
on. -/
def InTurn (g : Graph) (body : List Event) : Prop :=
  ∀ front id job back, body = front ++ .nodeDispatched id job :: back →
    ∀ d ∈ g.dependencies id, ∃ st, .nodeCompleted d st ∈ front

/-- In the run of `g` that began in the state `s₀` the listener has heard `body` so far, after it was told
that the graph has started. -/
structure Heard (w : RunSetting) (g : Graph) (s₀ : RunState) (body : List Event) (past : History)
    (r : GraphRun) : Prop where
  events : r.state.events = s₀.events ++ .graphStarted g.target g.nodes.length :: body
  jobs : ∀ j ∈ r.jobs ++ past.reported,
    j.phase.Told w.containCrashes r.state.tracker (hearing j.node.id body) j.node j.id
  others : ∀ id, id ∉ past.dispatched.map (·.node.id) →
    r.state.tracker.state? id = s₀.tracker.state? id ∧ hearing id body = []
  about : ∀ e ∈ body, e.node?.isSome = true
  turns : InTurn g body
  size : r.state.tracker.size = s₀.tracker.size

theorem InTurn.append {g : Graph} {body : List Event} (h : InTurn g body) {new : List Event}
    (hnew : ∀ id job, .nodeDispatched id job ∈ new → ∀ d ∈ g.dependencies id, ∃ st, .nodeCompleted d st ∈ body) :
    InTurn g (body ++ new) := by
  intro front id job back hsplit d hd
  rcases List.append_eq_append_iff.1 hsplit with ⟨gap, rfl, hgap⟩ | ⟨gap, rfl, hgap⟩
  · have hmem : Event.nodeDispatched id job ∈ new := by simp [hgap]
    obtain ⟨st, hst⟩ := hnew id job hmem d hd
    exact ⟨st, List.mem_append_left _ hst⟩
  · cases gap with
    | nil =>
      rw [List.append_nil] at hnew
      rw [List.nil_append] at hgap
      exact hnew id job (hgap ▸ List.mem_cons_self) d hd
    | cons e rest =>
      obtain ⟨rfl, -⟩ := List.cons.inj hgap
      exact h front _ _ rest rfl d hd

namespace Heard
variable {w : RunSetting} {g : Graph} {k : Nat} {s₀ : RunState} {body : List Event} {past past' : History}
  {r r' : GraphRun} {m : Move}

theorem start (k : Nat) : Heard w g s₀ [] {} (GraphRun.start w g s₀ k) where
  events := rfl
  jobs := by simp [GraphRun.start]
  others _ _ := ⟨rfl, rfl⟩
  about := List.forall_mem_nil _
  turns := by
    intro front id job back hsplit
    simp at hsplit
  size := rfl

/-- What a node in a job depends on has been heard to end. -/
theorem dependencies_heard (ho : Orderly g k past r) (h : Heard w g s₀ body past r) {j : Job}
    (hj : j ∈ r.jobs ++ past.reported) {d : NodeId} (hd : d ∈ g.dependencies j.node.id) :
    ∃ st, .nodeCompleted d st ∈ body := by
  obtain ⟨c, hc, rfl, st, hst⟩ := Orderly.mem_completed.1 (ho.dependency_completed (ho.node_mem hj) hd)
  obtain ⟨i, hi, hnode, hphase⟩ := exists_partner ho.arrived (List.mem_append_left _ hc)
  have htold := h.jobs i (List.mem_append_right _ hi)
  rw [hphase, hst] at htold
  have hmem : .nodeCompleted c.node st ∈ hearing i.node.id body := by
    rw [htold.2.2, hnode]
    exact List.mem_cons_of_mem _ List.mem_cons_self
  exact ⟨st, (mem_hearing.1 hmem).1⟩

theorem work (ho : Orderly g k past r) (h : Heard w g s₀ body past r) {front back : List Job} {j : Job}
    {s : RunState} {p : Phase} (hjobs : r.jobs = front ++ j :: back) (action : Job.Action w r.state j s p) :
    Heard w g s₀ (body ++ j.news) past { r with state := s, jobs := front ++ { j with phase := p } :: back } := by
  have hj : j ∈ r.jobs ++ past.reported := by simp [hjobs]
  have hold : ∀ i ∈ front ++ back ++ past.reported,
      i.phase.Told w.containCrashes s.tracker (hearing i.node.id (body ++ j.news)) i.node i.id := by
    intro i hi
    obtain ⟨hi', hne⟩ := ho.others hjobs hi
    rw [hearing_append, Job.hearing_news_of_ne hne, List.append_nil]
    exact (h.jobs i hi').frame (action.state?_of_ne hne)
  refine ⟨?_, ?_, ?_, ?_, ?_, action.size.trans h.size⟩
  · rw [action.events, h.events, List.append_assoc, List.cons_append]
  · intro i hi
    simp only [List.mem_append, List.mem_cons] at hi
    rcases hi with (hi | rfl | hi) | hi
    · exact hold i (by simp [hi])
    · have htold := action.told (h.jobs j hj)
      rwa [← j.hearing_news, ← hearing_append] at htold
    · exact hold i (by simp [hi])
    · exact hold i (by simp [hi])
  · intro id hid
    have hne : id ≠ j.node.id := by
      rintro rfl
      obtain ⟨i, hi, hnode⟩ := List.mem_map.1 (ho.node_mem hj)
      exact hid (List.mem_map.2 ⟨i, hi, congrArg (·.id) hnode⟩)
    obtain ⟨hstate, hnone⟩ := h.others id hid
    rw [hearing_append, hnone, Job.hearing_news_of_ne hne]
    exact ⟨(action.state?_of_ne hne).trans hstate, rfl⟩
  · intro e he
    rcases List.mem_append.1 he with he | he
    · exact h.about e he
    · rw [Job.node?_of_news he]
      rfl
  · apply h.turns.append
    intro id job hmem d hd
    obtain rfl : id = j.node.id := Option.some.inj (Job.node?_of_news hmem)
    exact h.dependencies_heard ho hj hd

theorem step (hnew : ∀ n ∈ g.nodes, s₀.tracker.state? n.id = some .notStarted) (ho : Orderly g k past r)
    (h : Heard w g s₀ body past r) (hs : Step w past r m past' r') : ∃ body', Heard w g s₀ body' past' r' := by
  cases hs with
  | drop | cancel => exact ⟨body, h.events, h.jobs, h.others, h.about, h.turns, h.size⟩
  | @dispatch n rest ready =>
    obtain ⟨hn, hnot⟩ := ho.next_new ready
    obtain ⟨hstate, hnone⟩ := h.others n.id hnot
    refine ⟨body, h.events, ?_, ?_, h.about, h.turns, h.size⟩
    · intro j hj
      simp only [List.mem_append, List.mem_singleton] at hj
      rcases hj with (hj | rfl) | hj
      · exact h.jobs j (List.mem_append_left _ hj)
      · exact ⟨hstate.trans (hnew n hn), hnone⟩
      · exact h.jobs j (List.mem_append_right _ hj)
    · intro id hid
      simp only [List.map_append, List.mem_append, not_or] at hid
      exact h.others id hid.1
  | work jobs action => exact ⟨_, h.work ho jobs action⟩
  | report jobs finished =>
    refine ⟨body, h.events, fun i hi => h.jobs i ?_, h.others, h.about, h.turns, h.size⟩
    rw [jobs]
    simp only [List.mem_append, List.mem_cons] at hi ⊢
    tauto
  | @receive c rest =>
    obtain ⟨hstate, hjobs, -, -⟩ := takeIn_keeps { r with reports := rest } c
    refine ⟨body, ?_, ?_, ?_, h.about, h.turns, ?_⟩
    all_goals rw [hstate]
    · exact h.events
    · rw [hjobs]
      exact h.jobs
    · exact h.others
    · exact h.size

end Heard

variable {w : RunSetting} {g : Graph} {k : Nat} {s₀ : RunState} {body : List Event} {past : History}
  {r : GraphRun}

theorem Reached.heard {allowed : Move → Prop} (hg : g.WellFormed)
    (hnew : ∀ n ∈ g.nodes, s₀.tracker.state? n.id = some .notStarted)
    (h : Reached allowed w (GraphRun.start w g s₀ k) past r) : ∃ body, Heard w g s₀ body past r := by
  apply h.invariant_along (P := fun past r => ∃ body, Heard w g s₀ body past r) ⟨[], .start k⟩
  rintro past r m past' r' before ⟨body, hbody⟩ - hstep
  exact hbody.step hnew (before.orderly hg) hstep

/-- All that is heard is about nodes of the graph. -/
theorem Heard.bodies (ho : Orderly g k past r) (h : Heard w g s₀ body past r) {e : Event} (he : e ∈ body) :
    ∃ n ∈ g.nodes, e.node? = some n.id := by
  obtain ⟨id, hid⟩ := Option.isSome_iff_exists.1 (h.about e he)
  by_contra hnone
  have hnot : ∀ n ∈ g.nodes, n.id ≠ id := fun n hn he => hnone ⟨n, hn, he ▸ hid⟩
  have hmem := mem_hearing.2 ⟨he, hid⟩
  rw [(h.others id (ho.notMem_dispatched hnot)).2] at hmem
  cases hmem

end GraphRun

/-! ### The end of a run -/

/-- The job has been broken off. -/
def Job.isBroken (j : Job) : Bool :=
  match j.phase with
  | .finished (.error _) => true
  | _ => false

/-- The jobs that have reported that they were broken off. -/
def History.broken (past : History) : List Job := past.reported.filter (·.isBroken)

/-- The state in which the jobs have left the node, where those of `broken` have been broken off: not started
if it was not dispatched, executing if its job was broken off, and else terminal. -/
structure Node.Left (dispatched broken : List Job) (n : Node) (st : NodeState) : Prop where
  notStarted_iff : st = .notStarted ↔ n ∉ dispatched.map (·.node)
  executing_iff : st = .executing ↔ n ∈ broken.map (·.node)

theorem Job.isBroken_iff {j : Job} : j.isBroken = true ↔ ∃ e, j.phase = .finished (.error e) := by
  unfold isBroken
  split <;> simp_all

namespace GraphRun

/-- There was no fatal failure in a run that is over if no job was broken off. -/
theorem Orderly.fatal_eq_none_iff (h : Orderly g k past r) (hdone : r.isDone = true) :
    r.fatal = none ↔ past.broken = [] := by
  have harrived := h.arrived
  rw [(h.idle hdone).2.2, List.append_nil] at harrived
  unfold History.broken
  rw [h.fatal, List.filter_eq_nil_iff]
  constructor
  · intro hall j hj hbroken
    obtain ⟨c, hc, -, hphase⟩ := exists_partner (List.Forall₂.flip (R := flip Completion.Of) harrived) hj
    obtain ⟨e, he⟩ := Job.isBroken_iff.1 hbroken
    obtain ⟨st, hst⟩ := hall c hc
    rw [hphase, hst] at he
    cases he
  · intro hall c hc
    obtain ⟨j, hj, -, hphase⟩ := exists_partner harrived hc
    cases ho : c.outcome with
    | ok st => exact ⟨st, rfl⟩
    | error e =>
      rw [ho] at hphase
      exact absurd (Job.isBroken_iff.2 ⟨e, hphase⟩) (hall j hj)

theorem Orderly.broken_node_mem (h : Orderly g k past r) {j : Job} (hj : j ∈ past.broken) :
    j.node ∈ past.dispatched.map (·.node) :=
  h.node_mem (List.mem_append_right _ (List.mem_filter.1 hj).1)

theorem Orderly.broken_nodup (h : Orderly g k past r) : (past.broken.map (·.node.id)).Nodup := by
  have hnodup := h.placed_nodup
  rw [List.map_append] at hnodup
  exact (List.nodup_append.1 hnodup).2.1.sublist (List.filter_sublist.map _)

/-- A job that was broken off has left its node executing, and what broke it off is known. -/
theorem Heard.of_broken (h : Heard w g s₀ body past r) {j : Job} (hj : j ∈ past.broken) :
    r.state.tracker.state? j.node.id = some .executing ∧
      ∃ e, j.phase = .finished (.error e) ∧ j.node.BrokenBy w.containCrashes e := by
  obtain ⟨hj, hbroken⟩ := List.mem_filter.1 hj
  obtain ⟨e, hphase⟩ := Job.isBroken_iff.1 hbroken
  have htold := h.jobs j (List.mem_append_right _ hj)
  rw [hphase] at htold
  exact ⟨htold.1, e, hphase, htold.2.2⟩

/-- Where a run is over, what was heard of a node says how the run has left it. -/
theorem Heard.left (hg : g.WellFormed) (hnew : ∀ n ∈ g.nodes, s₀.tracker.state? n.id = some .notStarted)
    (ho : Orderly g k past r) (h : Heard w g s₀ body past r) (hdone : r.isDone = true) {n : Node}
    (hn : n ∈ g.nodes) :
    ∃ st job, r.state.tracker.state? n.id = some st ∧ hearing n.id body = st.tale n.id job ∧
      n.Left past.dispatched past.broken st := by
  by_cases hdispatched : n ∈ past.dispatched.map (·.node)
  · obtain ⟨j, hj, rfl, outcome, hphase⟩ := ho.finished hdone hdispatched
    have htold := h.jobs j (List.mem_append_right _ hj)
    rw [hphase] at htold
    cases outcome with
    | ok st =>
      obtain ⟨hterminal, hstate, hheard⟩ := htold
      refine ⟨st, j.id, hstate, by rw [hheard, NodeState.tale_of_terminal hterminal], ?_, ?_⟩
      · refine iff_of_false ?_ (not_not_intro hdispatched)
        rintro rfl
        cases hterminal
      · refine iff_of_false ?_ ?_
        · rintro rfl
          cases hterminal
        · intro hbroken
          obtain ⟨i, hi, hnode⟩ := List.mem_map.1 hbroken
          have hexecuting := (h.of_broken hi).1
          rw [hnode, hstate] at hexecuting
          cases hexecuting
          cases hterminal
    | error e =>
      obtain ⟨hstate, hheard, -⟩ := htold
      refine ⟨.executing, j.id, hstate, hheard, ?_, ?_⟩
      · exact iff_of_false (by decide) (not_not_intro hdispatched)
      · exact iff_of_true rfl (List.mem_map_of_mem (List.mem_filter.2 ⟨hj, Job.isBroken_iff.2 ⟨e, hphase⟩⟩))
  · have hid : n.id ∉ past.dispatched.map (·.node.id) := by
      intro hmem
      obtain ⟨j, hj, hid⟩ := List.mem_map.1 hmem
      have hnode := List.mem_map_of_mem (f := (·.node)) hj
      rw [Graph.eq_of_id_eq hg.ids (ho.dispatched_mem hnode).1 hn hid] at hnode
      exact hdispatched hnode
    obtain ⟨hstate, hnone⟩ := h.others n.id hid
    refine ⟨.notStarted, 0, hstate.trans (hnew n hn), hnone, iff_of_true rfl hdispatched, ?_⟩
    refine iff_of_false (by decide) fun hbroken => hdispatched ?_
    obtain ⟨i, hi, rfl⟩ := List.mem_map.1 hbroken
    exact ho.broken_node_mem hi

end GraphRun

end CalcCycle
