import CalcCycle.Proofs.Execution.Pool
import CalcCycle.Proofs.Execution.Soundness

/-! The failures that can break off the run of a graph. They come from the cache, from a node that is
moved out of turn, from a crash that is not contained, or from the scheduler itself. -/

namespace CalcCycle

/-- The failures of a run, by where they arise. -/
inductive Failure.BreaksOff : Failure → Prop
  | cache (e : CacheError) : BreaksOff (.cache e)
  | outOfTurn (n : NodeId) (text : String) : BreaksOff (.invariant (n.text ++ text))
  | crash (text : String) : BreaksOff (.invariant ("function " ++ text))
  | stalled (text : String) : BreaksOff (.invariant ("graph for " ++ text))

theorem Tracker.breaksOff_of_move {t : Tracker} {n : NodeId} {a b : NodeState} {e : Failure}
    (h : t.move n a b = .error e) : e.BreaksOff := by
  obtain ⟨text, rfl⟩ := move_error h
  exact .outOfTurn n text

/-- Whatever failure the job may have come to, it is one of a run. -/
def Job.FailsAsRun (j : Job) : Prop := ∀ e, j.phase = .finished (.error e) → e.BreaksOff

theorem Job.Action.breaksOff {w : RunSetting} {s s' : RunState} {j : Job} {p : Phase} {e : Failure}
    (h : Job.Action w s j s' p) (hp : p = .finished (.error e)) : e.BreaksOff := by
  cases h with
  | refuseStart _ refused =>
    cases hp
    exact Tracker.breaksOff_of_move refused
  | refuseSuccess _ refused | refuseFailure _ refused =>
    cases hp
    exact Tracker.breaksOff_of_move (Tracker.move_then_error refused)
  | refuseRead | refuseWrite =>
    cases hp
    exact .cache _
  | @call inputs reply =>
    cases houtcome : reply.outcome with
    | values vs =>
      rw [houtcome, afterCall] at hp
      split at hp <;> cases hp
    | fault f =>
      rw [houtcome] at hp
      cases hp
    | crash message =>
      rw [houtcome, afterCall] at hp
      split_ifs at hp
      cases hp
      simp only [String.append_assoc]
      exact .crash _
  | _ => cases hp

namespace GraphRun
variable {w : RunSetting} {g : Graph} {past : History} {r : GraphRun}

/-- No failure has turned up that is not one of a run. -/
structure FailsAsRun (r : GraphRun) : Prop where
  jobs : ∀ j ∈ r.jobs, j.FailsAsRun
  reports : ∀ c ∈ r.reports, ∀ e, c.outcome = .error e → e.BreaksOff
  fatal : ∀ e, r.fatal = some e → e.BreaksOff

theorem takeIn_fatal {c : Completion} {e : Failure} (h : (r.takeIn c).fatal = some e) :
    r.fatal = some e ∨ c.outcome = .error e := by
  cases houtcome : c.outcome with
  | error reason =>
    rw [takeIn_error houtcome] at h
    cases hfatal : r.fatal with
    | none =>
      obtain rfl : reason = e := by simpa [hfatal] using h
      exact Or.inr rfl
    | some first =>
      exact Or.inl (by simpa [hfatal] using h)
  | ok st =>
    left
    rw [← h]
    unfold takeIn
    rw [houtcome]
    cases st with
    | _ =>
      simp only
      rw [(foldl_countDown_keeps _ _).2.2.2]

theorem FailsAsRun.step {m : Move} {past' : History} {r' : GraphRun} (h : r.FailsAsRun)
    (hs : Step w past r m past' r') : r'.FailsAsRun := by
  cases hs with
  | drop => exact ⟨h.jobs, h.reports, h.fatal⟩
  | dispatch =>
    refine ⟨?_, h.reports, h.fatal⟩
    intro j hj
    rcases List.mem_append.1 hj with hj | hj
    · exact h.jobs j hj
    · obtain rfl := List.mem_singleton.1 hj
      intro e he
      cases he
  | @work front j back s p jobs action =>
    refine ⟨?_, h.reports, h.fatal⟩
    intro i hi
    have hothers : ∀ i ∈ front ++ back, i.FailsAsRun := fun i hi =>
      h.jobs i (jobs ▸ ((List.sublist_cons_self j back).append_left front).subset hi)
    rcases List.mem_append.1 hi with hi | hi
    · exact hothers i (List.mem_append_left _ hi)
    · rcases List.mem_cons.1 hi with rfl | hi
      · exact fun e he => action.breaksOff he
      · exact hothers i (List.mem_append_right _ hi)
  | @report front j back outcome jobs finished =>
    refine ⟨?_, ?_, h.fatal⟩
    · exact fun i hi => h.jobs i (jobs ▸ ((List.sublist_cons_self j back).append_left front).subset hi)
    · intro c hc
      rcases List.mem_append.1 hc with hc | hc
      · exact h.reports c hc
      · obtain rfl := List.mem_singleton.1 hc
        intro e he
        exact h.jobs j (by simp [jobs]) e (finished.trans (congrArg _ he))
  | @receive c rest ready reports =>
    obtain ⟨-, hjobs, hreports, -⟩ := takeIn_keeps { r with reports := rest } c
    refine ⟨by rw [hjobs]; exact h.jobs, ?_, ?_⟩
    · rw [hreports]
      exact fun c hc => h.reports c (by rw [reports]; exact List.mem_cons_of_mem _ hc)
    · intro e he
      rcases takeIn_fatal he with he | he
      · exact h.fatal e he
      · exact h.reports c (by simp [reports]) e he
  | cancel => exact ⟨h.jobs, h.reports, h.fatal⟩

theorem Reached.failsAsRun {allowed : Move → Prop} {s : RunState} {k : Nat}
    (h : Reached allowed w (.start w g s k) past r) : r.FailsAsRun :=
  h.invariant (P := fun _ r => r.FailsAsRun) ⟨(List.forall_mem_nil _), List.forall_mem_nil _, fun _ h => by cases h⟩
    fun h _ hs => h.step hs

theorem FailsAsRun.result {e : Failure} (h : r.FailsAsRun) (he : r.result = .error e) : e.BreaksOff := by
  unfold GraphRun.result at he
  split at he
  · next hfatal =>
    cases he
    exact h.fatal _ hfatal
  · split_ifs at he
    cases he
    unfold stalledText
    simp only [String.append_assoc]
    exact .stalled _

/-- A run that a pool brings to its end fails in one of these ways, if it fails. -/
theorem conduct_breaksOff {pool : WorkerPool} {allowed : Move → Prop} (hpool : pool.Completes allowed)
    (hg : g.Accepted) {s : RunState} {k : Nat} {e : Failure}
    (h : (conduct pool w g s k).1 = .error e) : e.BreaksOff := by
  obtain ⟨-, past, hrun⟩ := hpool w g s k hg
  have hfails := hrun.failsAsRun
  have hclosed : (GraphRun.closed w g (pool.drive w (.start w g s k))).FailsAsRun :=
    ⟨hfails.jobs, hfails.reports, hfails.fatal⟩
  exact hclosed.result h

end GraphRun

end CalcCycle
