import CalcCycle.Proofs.Execution.Progress

/-! What is asked of a worker pool: it makes moves that are possible until the run is over. The single
worker does, whatever the calculations answer, since it needs one round for a node. -/

namespace CalcCycle

/-- The pool brings the run of every graph to its end, by moves that are allowed. -/
def WorkerPool.Completes (pool : WorkerPool) (allowed : Move → Prop) : Prop :=
  ∀ (w : RunSetting) (g : Graph) (s : RunState) (k : Nat), g.Accepted →
    (pool.drive w (.start w g s k)).isDone = true ∧
      ∃ past, GraphRun.Reached allowed w (.start w g s k) past (pool.drive w (.start w g s k))

theorem WorkerPool.Completes.mono {pool : WorkerPool} {allowed allowed' : Move → Prop}
    (h : ∀ m, allowed m → allowed' m) (hpool : pool.Completes allowed) : pool.Completes allowed' :=
  fun w g s k hg => (hpool w g s k hg).imp_right fun ⟨past, hrun⟩ => ⟨past, hrun.mono h⟩

namespace GraphRun

variable {w : RunSetting} {g : Graph} {k : Nat} {past : History} {r r₀ : GraphRun}

/-- A move of the single worker, who does not cancel. -/
abbrev Served (w : RunSetting) : GraphRun → History → GraphRun → Prop := Reached (· ≠ .cancel) w

theorem act_of_step {m : Move} {r' : GraphRun} (h : r.step w m = some r') : r.act w m = r' := by
  rw [act, h, Option.getD_some]

/-! ### The oldest job -/

theorem step_work_zero {j : Job} {rest : List Job} (hjobs : r.jobs = j :: rest) (ho : j.outcome? = none) :
    r.step w (.work 0) = some { r with
      state := (j.advance w r.state).1
      jobs := { j with phase := (j.advance w r.state).2 } :: rest } := by
  simp [step, hjobs, ho]

/-- After so many actions the oldest job has come nearer to its call, and after the call nearer to its
report. -/
theorem actTimes_work (n : Nat) {j : Job} {rest : List Job} (hjobs : r.jobs = j :: rest)
    (h : Served w r₀ past r) :
    ∃ s j', j'.node = j.node ∧
      r.actTimes w (.work 0) n = { r with state := s, jobs := j' :: rest } ∧
      Served w r₀ past { r with state := s, jobs := j' :: rest } ∧
      Job.untilCall j.node j'.phase ≤ Job.untilCall j.node j.phase - n ∧
      (Job.untilCall j.node j.phase = 0 →
        Job.untilReceived j'.phase ≤ max 2 (Job.untilReceived j.phase - n)) := by
  induction n generalizing r j with
  | zero =>
    refine ⟨r.state, j, rfl, ?_, ?_, by omega, fun _ => by omega⟩
    · rw [actTimes, ← hjobs]
    · rw [← hjobs]
      exact h
  | succ n ih =>
    rw [actTimes]
    cases ho : j.outcome? with
    | some outcome =>
      have hphase := outcome?_eq_some_iff.1 ho
      have hstay : r.act w (.work 0) = r := by simp [act, step, hjobs, ho]
      rw [hstay]
      obtain ⟨s, j', hnode, hr, hserved, hcall, hreceived⟩ := ih hjobs h
      have hzero : Job.untilCall j.node (.finished outcome) = 0 := rfl
      have htwo : Job.untilReceived (.finished outcome) = 2 := rfl
      rw [hphase] at hcall hreceived ⊢
      have hlast := hreceived hzero
      exact ⟨s, j', hnode, hr, hserved, by omega, fun _ => by omega⟩
    | none =>
      have hstep := step_work_zero (w := w) hjobs ho
      have hadvances := (Job.advance_action w r.state ho).advances
      have hpre : Job.untilCall j.node j.phase ≠ 0 → Job.untilReceived j.phase = 0 :=
        Job.untilReceived_eq_zero
      obtain ⟨s, j', hnode, hr, hserved, hcall, hreceived⟩ := ih rfl (h.move (by decide) hstep)
      rw [act_of_step hstep]
      simp only at hcall hreceived
      refine ⟨s, j', hnode, hr, hserved, by omega, ?_⟩
      intro hzero
      have hlast := hreceived (by omega)
      omega

theorem untilReceived_le {j : Job} (h : Job.untilCall j.node j.phase = 0) :
    Job.untilReceived j.phase - j.actionsAfterCall ≤ 2 := by
  unfold Job.actionsAfterCall
  cases hp : j.phase with
  | queued | begun | reading | ready => simp [Job.untilCall, hp] at h
  | writing rest => simp only [Job.untilReceived]; omega
  | _ => simp [Job.untilReceived]

/-- The oldest job, which nobody has begun, is run to its end and reports. -/
theorem serveOldest_cons {j : Job} {rest : List Job} (hjobs : r.jobs = j :: rest)
    (hqueued : j.phase = .queued) (h : Served w r₀ past r) :
    ∃ s c reported, r.serveOldest w = { r with state := s, jobs := rest, reports := r.reports ++ [c] } ∧
      Served w r₀ { past with reported := reported } (r.serveOldest w) := by
  obtain ⟨s, a, hnode, hcalled, hserved, hcall, -⟩ := actTimes_work j.actionsToCall hjobs h
  have hzero : Job.untilCall a.node a.phase = 0 := by
    have hall : Job.untilCall j.node j.phase = j.actionsToCall := by rw [hqueued]; rfl
    rw [hnode]
    omega
  obtain ⟨s', b, -, hfinished, hserved, hcall, hreceived⟩ :=
    actTimes_work a.actionsAfterCall rfl hserved
  have hle := untilReceived_le hzero
  have hlast := hreceived hzero
  obtain ⟨outcome, hb⟩ := Job.exists_outcome (p := b.phase) (n := a.node) (by omega) (by omega)
  have hreport : GraphRun.step w (.report 0) { r with state := s', jobs := b :: rest } =
      some { r with state := s', jobs := rest, reports := r.reports ++ [⟨b.node.id, outcome⟩] } := by
    simp [step, outcome?_eq_some_iff.2 hb]
  have hserve : r.serveOldest w =
      { r with state := s', jobs := rest, reports := r.reports ++ [⟨b.node.id, outcome⟩] } := by
    simp only [serveOldest, hjobs, hcalled, hfinished]
    exact act_of_step hreport
  have hreported := hserved.move (by decide) hreport
  rw [← hserve] at hreported
  exact ⟨s', _, _, hserve, hreported⟩

/-! ### Rounds -/

/-- All ready nodes are taken: their jobs wait for the worker, or they are dropped. -/
theorem actTimes_dispatch (n : Nat) (hn : r.ready.length = n) (hqueued : ∀ j ∈ r.jobs, j.phase = .queued)
    (h : Served w r₀ past r) :
    ∃ past', Served w r₀ past' (r.actTimes w .dispatch n) ∧ past'.received = past.received ∧
      (r.actTimes w .dispatch n).ready = [] ∧ (r.actTimes w .dispatch n).reports = r.reports ∧
      ∀ j ∈ (r.actTimes w .dispatch n).jobs, j.phase = .queued := by
  induction n generalizing r past with
  | zero => exact ⟨past, h, rfl, List.length_eq_zero_iff.1 hn, rfl, hqueued⟩
  | succ n ih =>
    obtain ⟨b, rest, hready⟩ := List.exists_cons_of_length_eq_add_one hn
    rw [hready, List.length_cons, Nat.add_right_cancel_iff] at hn
    rw [actTimes]
    cases hs : r.isStopped with
    | true =>
      have hstep : r.step w .dispatch = some { r with ready := rest } := by
        simp [step, hready, hs]
      have hserved := h.move (m := .dispatch) (by decide) hstep
      obtain ⟨past', hserved, hreceived, hrest⟩ := ih (r := { r with ready := rest }) hn hqueued hserved
      rw [act_of_step hstep]
      exact ⟨past', hserved, hreceived, hrest⟩
    | false =>
      have hstep : r.step w .dispatch = some { r with
          ready := rest
          lastJob := r.lastJob + 1
          jobs := r.jobs ++ [{ id := r.lastJob + 1, node := b }]
          outstanding := r.outstanding + 1 } := by
        simp [step, hready, hs]
      have hqueued' : ∀ j ∈ r.jobs ++ [{ id := r.lastJob + 1, node := b }], j.phase = .queued := by
        intro j hj
        rcases List.mem_append.1 hj with hj | hj
        · exact hqueued j hj
        · rw [List.mem_singleton.1 hj]
      have hserved := h.move (m := .dispatch) (by decide) hstep
      obtain ⟨past', hserved, hreceived, hrest⟩ := ih hn hqueued' hserved
      rw [act_of_step hstep]
      exact ⟨past', hserved, hreceived, hrest⟩

/-- Between two rounds no job is under way, and `n` completions have been taken in unless there is
nothing more to do. -/
structure Rested (n : Nat) (past : History) (r : GraphRun) : Prop where
  reports : r.reports = []
  queued : ∀ j ∈ r.jobs, j.phase = .queued
  counted : n ≤ past.received.length ∨ r.ready = [] ∧ r.jobs = []

theorem Rested.dispatchReady {n : Nat} (hb : Rested n past r) (h : Served w r₀ past r) :
    ∃ past', Served w r₀ past' (r.dispatchReady w) ∧ (r.dispatchReady w).ready = [] ∧
      Rested n past' (r.dispatchReady w) := by
  obtain ⟨past', hserved, hreceived, hready, hreports, hqueued⟩ :=
    actTimes_dispatch r.ready.length rfl hb.queued h
  refine ⟨past', hserved, hready, hreports.trans hb.reports, hqueued, ?_⟩
  rw [hreceived]
  apply hb.counted.imp_right
  intro hidle
  unfold GraphRun.dispatchReady
  rw [hidle.1]
  exact hidle

theorem Rested.round {n : Nat} (hb : Rested n past r) (h : Served w r₀ past r) :
    ∃ past', Served w r₀ past' (r.round w) ∧ Rested (n + 1) past' (r.round w) := by
  obtain ⟨past', hserved, hready, hrest⟩ := hb.dispatchReady h
  unfold GraphRun.round
  set a := r.dispatchReady w
  cases hjobs : a.jobs with
  | nil =>
    have hserve : a.serveOldest w = a := by simp [serveOldest, hjobs, act, step]
    have hreceive : a.act w .receive = a := by simp [act, step, hready, hrest.reports]
    rw [hserve, hreceive]
    exact ⟨past', hserved, hrest.reports, hrest.queued, Or.inr ⟨hready, hjobs⟩⟩
  | cons j rest =>
    have hqueued := hrest.queued
    rw [hjobs] at hqueued
    obtain ⟨s, c, reported, hserve, hserved⟩ :=
      serveOldest_cons hjobs (hqueued j List.mem_cons_self) hserved
    rw [hserve, hrest.reports, List.nil_append] at hserved ⊢
    have hreceive : GraphRun.step w .receive { a with state := s, jobs := rest, reports := [c] } =
        some ({ a with state := s, jobs := rest, reports := [] }.takeIn c) := by
      simp [step, hready]
    obtain ⟨-, hjobs', hreports, -⟩ :=
      takeIn_keeps { a with state := s, jobs := rest, reports := [] } c
    rw [act_of_step hreceive]
    refine ⟨_, hserved.move (by decide) hreceive, hreports, ?_, Or.inl ?_⟩
    · rw [hjobs']
      exact fun i hi => hqueued i (List.mem_cons_of_mem _ hi)
    · have hcounted := hrest.counted.resolve_right fun hidle => by simp [hjobs] at hidle
      simpa [History.record] using hcounted

theorem Rested.rounds (m : Nat) {n : Nat} (hb : Rested n past r) (h : Served w r₀ past r) :
    ∃ past', Served w r₀ past' (r.rounds w m) ∧ Rested (n + m) past' (r.rounds w m) := by
  induction m generalizing n r past with
  | zero => exact ⟨past, h, hb⟩
  | succ m ih =>
    obtain ⟨past', hserved, hrest⟩ := hb.round h
    obtain ⟨past'', hserved, hrest⟩ := ih hrest hserved
    rw [Nat.add_right_comm] at hrest
    exact ⟨past'', hserved, hrest⟩

end GraphRun

/-- The single worker brings every run to its end. -/
theorem WorkerPool.single_completes : WorkerPool.single.Completes (· ≠ .cancel) := by
  intro w g s k hg
  set r := GraphRun.start w g s k
  have hstart : GraphRun.Rested 0 {} r := ⟨rfl, by simp [r, GraphRun.start], Or.inl (Nat.zero_le _)⟩
  obtain ⟨past, hserved, hrest⟩ := hstart.rounds g.nodes.length (.start : GraphRun.Served w r {} r)
  rw [Nat.zero_add] at hrest
  obtain ⟨past, hserved, hready, hrest⟩ := hrest.dispatchReady hserved
  change (GraphRun.dispatchReady w (r.rounds w g.nodes.length)).isDone = true ∧ _
  refine ⟨?_, past, hserved⟩
  set a := GraphRun.dispatchReady w (r.rounds w g.nodes.length)
  have horderly := hserved.orderly hg.wellFormed
  have hzero : a.outstanding = 0 := by
    have hcount := horderly.outstanding
    have hpending := horderly.outstanding_eq
    have hle := horderly.offered_length_le
    rcases hrest.counted with hcounted | ⟨-, hjobs⟩
    · omega
    · rw [hjobs, hrest.reports] at hpending
      exact hpending
  simp [GraphRun.isDone, hzero, hready]

end CalcCycle
