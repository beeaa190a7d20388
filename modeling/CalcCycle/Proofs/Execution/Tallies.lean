import CalcCycle.Proofs.Execution.Progress

/-! The tallies of a run. The tracker adds one to a tally when a job brings its node to an end, and the
scheduler adds one to its own when it takes in what the job has reported. Jobs that are under way may have
been counted by the one and not yet by the other; when a run is over, both have counted the same nodes. -/

namespace CalcCycle

namespace Tracker

/-- The tally that the tracker keeps of a terminal state. -/
def tally (t : Tracker) : NodeState → Nat
  | .executed => t.executedTally
  | .failed => t.failedTally
  | _ => 0

/-- Between the two, `n` more nodes have come to the state, by the tally and by the states of the nodes. -/
structure Gains (t t' : Tracker) (st : NodeState) (n : Nat) : Prop where
  tally : t'.tally st = t.tally st + n
  count : t'.states.count st = t.states.count st + n

namespace Gains
variable {t t' t'' : Tracker} {st : NodeState} {a b : Nat}

theorem refl (t : Tracker) (st : NodeState) : t.Gains t st 0 := ⟨rfl, rfl⟩

theorem trans (h : t.Gains t' st a) (h' : t'.Gains t'' st b) : t.Gains t'' st (a + b) :=
  ⟨by rw [h'.tally, h.tally, Nat.add_assoc], by rw [h'.count, h.count, Nat.add_assoc]⟩

end Gains

variable {t t' : Tracker} {n : NodeId} {a b st : NodeState}

theorem Moved.count (h : t.Moved t' n a b) (st : NodeState) :
    t'.states.count st + [a].count st = t.states.count st + [b].count st := by
  obtain ⟨front, back, hstates, hlength⟩ := GraphRun.exists_split h.source
  rw [h.states, hstates, ← hlength, List.set_append_right _ _ (Nat.le_refl _), Nat.sub_self, List.set_cons_zero]
  simp only [List.count_append, List.count_cons, List.count_nil]
  omega

theorem move_tally (h : t.move n a b = .ok t') : t'.tally = t.tally := by
  unfold move at h
  split at h
  · cases h
  · split_ifs at h
    cases h
    rfl

theorem begin_gains (h : t.begin n = .ok t') (hst : st.isTerminal = true) : t.Gains t' st 0 := by
  have hcount := (begin_ok h).1.count st
  refine ⟨congrFun (move_tally h) st, ?_⟩
  cases st with
  | executed | failed => simpa using hcount
  | notStarted | executing => cases hst

theorem markExecuted_gains (h : t.markExecuted n = .ok t') (hst : st.isTerminal = true) :
    t.Gains t' st ([NodeState.executed].count st) := by
  have hcount := (markExecuted_ok h).1.count st
  obtain ⟨u, hmove, rfl⟩ := move_then_ok (fun t => { t with executedTally := t.executedTally + 1 }) h
  have htally := congrFun (move_tally hmove) st
  cases st with
  | executed => exact ⟨congrArg (· + 1) htally, by simpa using hcount⟩
  | failed => exact ⟨htally, by simpa using hcount⟩
  | notStarted | executing => cases hst

theorem markFailed_gains {reason : FailureReason} (h : t.markFailed n reason = .ok t')
    (hst : st.isTerminal = true) : t.Gains t' st ([NodeState.failed].count st) := by
  have hcount := (markFailed_ok h).1.count st
  obtain ⟨u, hmove, rfl⟩ := move_then_ok
    (fun t => { t with reasons := t.reasons.insert n reason, failedTally := t.failedTally + 1 }) h
  have htally := congrFun (move_tally hmove) st
  cases st with
  | executed => exact ⟨htally, by simpa using hcount⟩
  | failed => exact ⟨congrArg (· + 1) htally, by simpa using hcount⟩
  | notStarted | executing => cases hst

/-- A tracker that began with nodes none of which had started has tallied those that have ended. -/
theorem Gains.of_start {count k : Nat} (h : (start count).Gains t st k) (hst : st.isTerminal = true) :
    t.tally st = k ∧ t.states.count st = k := by
  have hcount : (start count).states.count st = 0 := by
    rw [List.count_eq_zero]
    intro hmem
    rw [List.eq_of_mem_replicate hmem] at hst
    cases hst
  have htally : (start count).tally st = 0 := by cases st <;> rfl
  exact ⟨by rw [h.tally, htally, Nat.zero_add], by rw [h.count, hcount, Nat.zero_add]⟩

theorem counts_eq (t : Tracker) : t.counts =
    { notStarted := t.states.count .notStarted
      executing := t.states.count .executing
      executed := t.states.count .executed
      failed := t.states.count .failed } := by
  simp [counts, StateCounts.ofStates, StateCounts.foldl_tally]

end Tracker

/-- The terminal state to which a job in the phase has brought its node. -/
def Phase.final? : Phase → Option NodeState
  | .settled st => some st
  | .finished outcome => outcome.toOption
  | _ => none

/-- How many of the jobs have brought their nodes to the state. -/
def endedIn (st : NodeState) (jobs : List Job) : Nat := (jobs.map (·.phase.final?)).count (some st)

theorem endedIn_append (st : NodeState) (a b : List Job) : endedIn st (a ++ b) = endedIn st a + endedIn st b := by
  simp only [endedIn, List.map_append, List.count_append]

theorem endedIn_split (st : NodeState) (front back : List Job) (j : Job) :
    endedIn st (front ++ j :: back) = endedIn st front + endedIn st [j] + endedIn st back := by
  rw [List.append_cons, endedIn_append, endedIn_append]

namespace Job
variable {w : RunSetting} {s s' : RunState} {j : Job} {p : Phase} {st : NodeState}

theorem final?_afterCall (w : RunSetting) (n : Node) (o : Outcome) : (afterCall w n o).final? = none := by
  rcases afterCall_cases w n o with ⟨vs, -, -, he⟩ | ⟨text, he⟩ | ⟨-, e, he⟩
  all_goals rw [he]; rfl

/-- The tracker gains by an action what the job does. -/
theorem Action.gains (h : Action w s j s' p) (hst : st.isTerminal = true) :
    ∃ n, s.tracker.Gains s'.tracker st n ∧ endedIn st [{ j with phase := p }] = endedIn st [j] + n := by
  cases h with
  | start phase moved => exact ⟨0, Tracker.begin_gains moved hst, by simp [endedIn, Phase.final?, phase]⟩
  | succeed phase moved =>
    exact ⟨_, Tracker.markExecuted_gains moved hst, by simp [endedIn, Phase.final?, phase, List.count_cons]⟩
  | fail phase moved =>
    exact ⟨_, Tracker.markFailed_gains moved hst, by simp [endedIn, Phase.final?, phase, List.count_cons]⟩
  | call phase =>
    rw [(foldl_interrupt w _ _).1]
    refine ⟨0, .refl _ _, ?_⟩
    simp only [endedIn, List.map_singleton, final?_afterCall, phase]
    rfl
  | announce phase | close phase =>
    exact ⟨0, .refl _ _, by simp [endedIn, Phase.final?, phase, Except.toOption]⟩
  | refuseStart phase | read phase | miss phase | refuseRead phase | complete phase | incomplete phase
  | write phase | refuseWrite phase | refuseSuccess phase | refuseFailure phase =>
    exact ⟨0, .refl _ _, by simp [endedIn, Phase.final?, phase, Except.toOption]⟩

end Job

namespace GraphRun
variable {w : RunSetting} {g : Graph} {k : Nat} {t₀ : Tracker} {past past' : History} {r r' : GraphRun} {m : Move}
  {st : NodeState}

/-- The tally that the scheduler keeps of a terminal state. -/
def taken (r : GraphRun) : NodeState → Nat
  | .executed => r.executed
  | .failed => r.failed
  | _ => 0

theorem foldl_countDown_taken (succs : List Node) (r : GraphRun) : (succs.foldl countDown r).taken = r.taken := by
  induction succs generalizing r with
  | nil => rfl
  | cons n rest ih => exact ih (r.countDown n)

theorem takeIn_taken {c : Completion} (hc : ∀ st, c.outcome = .ok st → st.isTerminal = true)
    (hst : st.isTerminal = true) : (r.takeIn c).taken st = r.taken st + [c.outcome.toOption].count (some st) := by
  cases ho : c.outcome with
  | error e =>
    rw [takeIn_error ho]
    rfl
  | ok final =>
    have hfinal := hc final ho
    unfold takeIn
    rw [ho]
    simp only [foldl_countDown_taken, successors]
    cases final with
    | executed => cases st <;> simp_all [taken, Except.toOption, NodeState.isTerminal]
    | failed => cases st <;> simp_all [taken, Except.toOption, NodeState.isTerminal]
    | notStarted | executing => cases hfinal

/-- In a run that began with the tracker `t₀` the tracker has counted the jobs that have ended, and the scheduler
those of them whose reports it has taken in. -/
structure Tallied (t₀ : Tracker) (st : NodeState) (past : History) (r : GraphRun) : Prop where
  tracker : t₀.Gains r.state.tracker st (endedIn st (r.jobs ++ past.reported))
  taken : r.taken st = (past.received.map (·.outcome.toOption)).count (some st)

theorem Tallied.start (g : Graph) (s : RunState) (k : Nat) (st : NodeState) :
    Tallied s.tracker st {} (GraphRun.start w g s k) :=
  ⟨.refl _ _, by cases st <;> rfl⟩

theorem Tallied.step (hst : st.isTerminal = true) (ho : Orderly g k past r) (ht : Truthful past r)
    (h : Tallied t₀ st past r) (hs : Step w past r m past' r') : Tallied t₀ st past' r' := by
  have htracker := h.tracker
  cases hs with
  | drop | cancel => exact ⟨h.tracker, h.taken⟩
  | dispatch =>
    refine ⟨?_, h.taken⟩
    -- a job that has just been dispatched has not ended
    have hsame : ∀ job : Job, job.phase = .queued →
        endedIn st (r.jobs ++ [job] ++ past.reported) = endedIn st (r.jobs ++ past.reported) := by
      intro job hjob
      simp [endedIn, hjob, Phase.final?]
    rw [hsame _ rfl]
    exact htracker
  | @work front j back s p jobs action =>
    obtain ⟨n, hgains, hended⟩ := action.gains hst
    refine ⟨?_, h.taken⟩
    have hsum := htracker.trans hgains
    rw [jobs] at hsum
    have hcount : endedIn st (front ++ { j with phase := p } :: back ++ past.reported) =
        endedIn st (front ++ j :: back ++ past.reported) + n := by
      rw [endedIn_append, endedIn_split, hended, endedIn_append, endedIn_split]
      omega
    rw [hcount]
    exact hsum
  | @report front j back outcome jobs finished =>
    refine ⟨?_, h.taken⟩
    rw [jobs] at htracker
    have hcount : endedIn st (front ++ back ++ (past.reported ++ [j])) =
        endedIn st (front ++ j :: back ++ past.reported) := by
      rw [endedIn_append, endedIn_append, endedIn_append, endedIn_append, endedIn_split]
      omega
    rw [hcount]
    exact htracker
  | @receive c rest ready reports =>
    obtain ⟨hstate, hjobs, -, -⟩ := takeIn_keeps { r with reports := rest } c
    have hterminal : ∀ final, c.outcome = .ok final → final.isTerminal = true := by
      intro final hfinal
      obtain ⟨j, hj, -, hphase⟩ := exists_partner ho.arrived (a := c) (by simp [reports])
      rw [hfinal] at hphase
      exact (ht j (List.mem_append_right _ hj) final (Or.inr hphase)).1
    constructor
    · rw [hstate, hjobs]
      exact htracker
    · rw [takeIn_taken hterminal hst, List.map_append, List.count_append, ← h.taken]
      rfl

theorem Reached.tallied {allowed : Move → Prop} {s : RunState} (hg : g.WellFormed) (hst : st.isTerminal = true)
    (h : Reached allowed w (GraphRun.start w g s k) past r) : Tallied s.tracker st past r := by
  exact h.invariant_along (P := fun past r => Tallied s.tracker st past r) (.start g s k st)
    fun before htallied _ hstep => htallied.step hst (before.orderly hg) before.truthful hstep

/-- When a run is over, the tracker has gained what the scheduler has counted. -/
theorem Tallied.done (ho : Orderly g k past r) (h : Tallied t₀ st past r) (hdone : r.isDone = true) :
    t₀.Gains r.state.tracker st (r.taken st) := by
  obtain ⟨-, hjobs, hreports⟩ := ho.idle hdone
  have harrived := ho.arrived
  rw [hreports, List.append_nil] at harrived
  have hfinal : List.Forall₂ (fun (c : Completion) (j : Job) => c.outcome.toOption = j.phase.final?) past.received
      past.reported := harrived.imp fun c j hc => by rw [hc.2]; rfl
  rw [← List.forall₂_map_right_iff, ← List.forall₂_map_left_iff, List.forall₂_eq_eq_eq] at hfinal
  have htracker := h.tracker
  rw [hjobs, List.nil_append] at htracker
  rw [h.taken, hfinal]
  exact htracker

/-- No more nodes are counted than the graph has. -/
theorem Orderly.resolved_le (h : Orderly g k past r) : r.resolved ≤ g.nodes.length := by
  have hcompleted : past.completed.length ≤ past.received.length := List.length_filterMap_le _ _
  have hoffered := h.offered_length_le
  have hcount := h.outstanding
  rw [h.resolved]
  omega

end GraphRun

end CalcCycle
