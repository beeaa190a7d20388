import CalcCycle.Execution.Job
import CalcCycle.Proofs.Execution.Tracker

/-! The single actions of a job, one by one. Every fact about jobs is proved by going through these
cases. -/

namespace CalcCycle.Job

/-- `Action w s j s' p`: an action of the job `j` changes the shared state from `s` to `s'` and leads
to the phase `p`. -/
inductive Action (w : RunSetting) (s : RunState) (j : Job) : RunState → Phase → Prop
  | start {t} (phase : j.phase = .queued) (moved : s.tracker.begin j.node.id = .ok t) :
    Action w s j { s with tracker := t } .begun
  | refuseStart {e} (phase : j.phase = .queued) (refused : s.tracker.begin j.node.id = .error e) :
    Action w s j s (.finished (.error e))
  | announce (phase : j.phase = .begun) :
    Action w s j (s.notify w (.nodeDispatched j.node.id j.id)) (.reading j.node.inputs .empty [])
  | read {spec rest inputs missing v} (phase : j.phase = .reading (spec :: rest) inputs missing)
    (found : s.caches.read w.cache spec = .ok (some v)) :
    Action w s j s (.reading rest (Inputs.add inputs v) missing)
  | miss {spec rest inputs missing} (phase : j.phase = .reading (spec :: rest) inputs missing)
    (absent : s.caches.read w.cache spec = .ok none) :
    Action w s j s (.reading rest inputs (missing ++ [spec]))
  | refuseRead {spec rest inputs missing e} (phase : j.phase = .reading (spec :: rest) inputs missing)
    (refused : s.caches.read w.cache spec = .error e) :
    Action w s j s (.finished (.error (.cache e)))
  | complete {inputs} (phase : j.phase = .reading [] inputs []) : Action w s j s (.ready inputs)
  | incomplete {inputs missing} (phase : j.phase = .reading [] inputs missing) (some : missing ≠ []) :
    Action w s j s (.failing (.missingInputs missing))
  | call {inputs reply} (phase : j.phase = .ready inputs)
    (answer : j.node.calculation.call (j.context w) j.node.target inputs = reply) :
    Action w s j
      (reply.interrupts.foldl (RunState.interrupt w)
        { s with calls := s.calls ++ [⟨j.node.id, j.id, inputs⟩] })
      (afterCall w j.node reply.outcome)
  | write {v rest caches} (phase : j.phase = .writing (v :: rest))
    (written : s.caches.write w.cache v = .ok caches) :
    Action w s j { s with caches := caches } (.writing rest)
  | refuseWrite {v rest e} (phase : j.phase = .writing (v :: rest))
    (refused : s.caches.write w.cache v = .error e) :
    Action w s j s (.finished (.error (.cache e)))
  | succeed {t} (phase : j.phase = .writing []) (moved : s.tracker.markExecuted j.node.id = .ok t) :
    Action w s j { s with tracker := t } (.settled .executed)
  | refuseSuccess {e} (phase : j.phase = .writing [])
    (refused : s.tracker.markExecuted j.node.id = .error e) :
    Action w s j s (.finished (.error e))
  | fail {reason t} (phase : j.phase = .failing reason)
    (moved : s.tracker.markFailed j.node.id reason = .ok t) :
    Action w s j { s with tracker := t } (.settled .failed)
  | refuseFailure {reason e} (phase : j.phase = .failing reason)
    (refused : s.tracker.markFailed j.node.id reason = .error e) :
    Action w s j s (.finished (.error e))
  | close {st} (phase : j.phase = .settled st) :
    Action w s j (s.notify w (.nodeCompleted j.node.id st)) (.finished (.ok st))

theorem advance_action (w : RunSetting) (s : RunState) {j : Job} (h : j.outcome? = none) :
    Action w s j (j.advance w s).1 (j.advance w s).2 := by
  unfold advance
  split
  · next hp =>
    split
    · exact .start hp ‹_›
    · exact .refuseStart hp ‹_›
  · next hp => exact .announce hp
  · next hp =>
    split
    · exact .read hp ‹_›
    · exact .miss hp ‹_›
    · exact .refuseRead hp ‹_›
  · next inputs missing hp =>
    cases missing with
    | nil => exact .complete hp
    | cons spec rest => exact .incomplete hp (List.cons_ne_nil _ _)
  · next hp => exact .call hp rfl
  · next hp =>
    split
    · exact .write hp ‹_›
    · exact .refuseWrite hp ‹_›
  · next hp =>
    split
    · exact .succeed hp ‹_›
    · exact .refuseSuccess hp ‹_›
  · next hp =>
    split
    · exact .fail hp ‹_›
    · exact .refuseFailure hp ‹_›
  · next hp => exact .close hp
  · next hp => simp [outcome?, hp] at h

/-- After a call a job writes valid values, or fails its node, or breaks off the run; the last only
where crashes are not contained. -/
theorem afterCall_cases (w : RunSetting) (n : Node) (o : Outcome) :
    (∃ vs, o = .values vs ∧ validate n vs = .ok () ∧ afterCall w n o = .writing vs) ∨
      (∃ text, afterCall w n o = .failing (.functionFault text)) ∨
      (w.containCrashes = false ∧ ∃ e, afterCall w n o = .finished (.error e)) := by
  cases o with
  | values vs =>
    cases hv : validate n vs with
    | ok u => exact Or.inl ⟨vs, rfl, hv, by simp [afterCall, hv]⟩
    | error f => exact Or.inr (Or.inl ⟨_, by simp [afterCall, hv]; rfl⟩)
  | fault f => exact Or.inr (Or.inl ⟨_, rfl⟩)
  | crash message =>
    cases hc : w.containCrashes with
    | true => exact Or.inr (Or.inl ⟨_, by simp [afterCall, hc]; rfl⟩)
    | false => exact Or.inr (Or.inr ⟨rfl, _, by simp [afterCall, hc]; rfl⟩)

/-! ### The listener and the interrupts -/

@[simp] theorem notify_tracker (w : RunSetting) (e : Event) (s : RunState) :
    (s.notify w e).tracker = s.tracker := rfl

@[simp] theorem notify_caches (w : RunSetting) (e : Event) (s : RunState) :
    (s.notify w e).caches = s.caches := rfl

@[simp] theorem notify_calls (w : RunSetting) (e : Event) (s : RunState) :
    (s.notify w e).calls = s.calls := rfl

/-- An interrupt touches the caches and the request to cancel, and nothing else. -/
theorem foldl_interrupt (w : RunSetting) (l : List Interrupt) (s : RunState) :
    (l.foldl (RunState.interrupt w) s).tracker = s.tracker ∧
      (l.foldl (RunState.interrupt w) s).calls = s.calls ∧
      (s.cancelled = true → (l.foldl (RunState.interrupt w) s).cancelled = true) := by
  induction l generalizing s with
  | nil => exact ⟨rfl, rfl, fun h => h⟩
  | cons i rest ih =>
    obtain ⟨h1, h2, h3⟩ := ih (s.interrupt w i)
    cases i with
    | cancelCycle => exact ⟨h1, h2, fun _ => h3 rfl⟩
    | releaseCache => exact ⟨h1, h2, h3⟩

theorem foldl_interrupt_caches (w : RunSetting) {l : List Interrupt} (h : .releaseCache ∉ l)
    (s : RunState) : (l.foldl (RunState.interrupt w) s).caches = s.caches := by
  induction l generalizing s with
  | nil => rfl
  | cons i rest ih =>
    simp only [List.mem_cons, not_or] at h
    rw [List.foldl_cons, ih h.2]
    cases i with
    | cancelCycle => rfl
    | releaseCache => exact absurd rfl h.1

namespace Action
variable {w : RunSetting} {s s' : RunState} {j : Job} {p : Phase}

/-- Nobody takes back a request to cancel. -/
theorem cancelled (h : Action w s j s' p) (hc : s.cancelled = true) : s'.cancelled = true := by
  cases h with
  | announce | close => simp [RunState.notify, hc]
  | call => exact (foldl_interrupt w _ _).2.2 hc
  | _ => exact hc

/-- An action moves the node of its job at most, and never out of a terminal state. -/
theorem tracker (h : Action w s j s' p) :
    s'.tracker = s.tracker ∨
      ∃ a b, a.isTerminal = false ∧ s.tracker.Moved s'.tracker j.node.id a b := by
  cases h with
  | start _ moved => exact Or.inr ⟨_, _, rfl, (Tracker.begin_ok moved).1⟩
  | succeed _ moved => exact Or.inr ⟨_, _, rfl, (Tracker.markExecuted_ok moved).1⟩
  | fail _ moved => exact Or.inr ⟨_, _, rfl, (Tracker.markFailed_ok moved).1⟩
  | call => exact Or.inl (foldl_interrupt w _ _).1
  | _ => exact Or.inl rfl

theorem size (h : Action w s j s' p) : s'.tracker.size = s.tracker.size := by
  rcases h.tracker with he | ⟨a, b, -, hm⟩
  · rw [he]
  · exact hm.size

theorem state?_of_ne (h : Action w s j s' p) {n : NodeId} (hn : n ≠ j.node.id) :
    s'.tracker.state? n = s.tracker.state? n := by
  rcases h.tracker with he | ⟨a, b, -, hm⟩
  · rw [he]
  · exact hm.state?_of_ne hn

theorem reason?_of_ne (h : Action w s j s' p) {n : NodeId} (hn : n ≠ j.node.id) :
    s'.tracker.reason? n = s.tracker.reason? n := by
  unfold Tracker.reason?
  cases h with
  | start _ moved => rw [(Tracker.begin_ok moved).2]
  | succeed _ moved => rw [(Tracker.markExecuted_ok moved).2]
  | fail _ moved => rw [(Tracker.markFailed_ok moved).2, SortedMap.get?_insert, if_neg hn]
  | call => rw [(foldl_interrupt w _ _).1]
  | _ => rfl

theorem terminal (h : Action w s j s' p) {n : NodeId} {st : NodeState} (hst : st.isTerminal = true)
    (hn : s.tracker.state? n = some st) : s'.tracker.state? n = some st := by
  rcases h.tracker with he | ⟨a, b, ha, hm⟩
  · rw [he, hn]
  · exact hm.terminal ha hst hn

/-- A job that has settled, or finished without a fault, has brought its node into the terminal state
that it reports. -/
theorem settled (h : Action w s j s' p) {st : NodeState}
    (hp : p = .settled st ∨ p = .finished (.ok st))
    (hj : j.phase = .settled st → st.isTerminal = true ∧ s.tracker.state? j.node.id = some st) :
    st.isTerminal = true ∧ s'.tracker.state? j.node.id = some st := by
  cases h with
  | succeed _ moved =>
    rcases hp with hp | hp <;> cases hp
    exact ⟨rfl, (Tracker.markExecuted_ok moved).1.state?_self⟩
  | fail _ moved =>
    rcases hp with hp | hp <;> cases hp
    exact ⟨rfl, (Tracker.markFailed_ok moved).1.state?_self⟩
  | close phase =>
    rcases hp with hp | hp <;> cases hp
    exact hj phase
  | @call _ reply =>
    exfalso
    rcases afterCall_cases w j.node reply.outcome with ⟨_, _, _, he⟩ | ⟨_, he⟩ | ⟨_, _, he⟩
    all_goals rw [he] at hp; rcases hp with hp | hp <;> cases hp
  | _ => rcases hp with hp | hp <;> cases hp

end Action

end CalcCycle.Job
