import CalcCycle.Proofs.Execution.Scheduling
import Mathlib.Data.List.Induction
import Mathlib.Data.List.Perm.Subperm

/-! A run that is not over can go on, and it cannot go on for ever. Where it ends without a fatal
failure and without a request to cancel, every node of the graph has been dispatched, has reported and
is in a terminal state. -/

namespace CalcCycle

namespace Job

/-- The actions left until the calculation is called. -/
def untilCall (n : Node) : Phase → Nat
  | .queued => n.inputs.length + 4
  | .begun => n.inputs.length + 3
  | .reading rest _ _ => rest.length + 2
  | .ready _ => 1
  | _ => 0

/-- The actions left after the call, until the report has been taken in. -/
def untilReceived : Phase → Nat
  | .writing rest => rest.length + 4
  | .failing _ => 4
  | .settled _ => 3
  | .finished _ => 2
  | _ => 0

theorem untilReceived_eq_zero {n : Node} {p : Phase} (h : untilCall n p ≠ 0) : untilReceived p = 0 := by
  cases p with
  | queued | begun | reading | ready => rfl
  | _ => exact absurd rfl h

/-- A job that has neither its call nor more than its report ahead has finished. -/
theorem exists_outcome {n : Node} {p : Phase} (hcall : untilCall n p = 0) (hreceived : untilReceived p ≤ 2) :
    ∃ outcome, p = .finished outcome := by
  cases p with
  | finished outcome => exact ⟨outcome, rfl⟩
  | _ => simp [untilCall, untilReceived] at hcall hreceived

variable {w : RunSetting} {s s' : RunState} {j : Job} {p : Phase}

theorem Action.advances (h : Action w s j s' p) :
    untilCall j.node p < untilCall j.node j.phase ∨
      untilCall j.node p = untilCall j.node j.phase ∧ untilReceived p < untilReceived j.phase := by
  cases h with
  | @call inputs reply phase =>
    left
    rw [phase]
    rcases afterCall_cases w j.node reply.outcome with ⟨_, _, _, he⟩ | ⟨_, he⟩ | ⟨_, _, he⟩
    all_goals rw [he]; exact Nat.zero_lt_one
  | write phase | refuseWrite phase | succeed phase | refuseSuccess phase | fail phase
  | refuseFailure phase | close phase =>
    rw [phase]
    simp [untilCall, untilReceived]
  | _ =>
    left
    simp_all [untilCall]

end Job

namespace GraphRun

/-- A cost summed up over jobs. -/
def load (cost : Job → Nat) : List Job → Nat
  | [] => 0
  | j :: rest => cost j + load cost rest

theorem load_append (cost : Job → Nat) (a b : List Job) : load cost (a ++ b) = load cost a + load cost b := by
  induction a with
  | nil => simp [load]
  | cons j rest ih => rw [List.cons_append, load, load, ih, Nat.add_assoc]

variable {w : RunSetting} {g : Graph} {k : Nat} {past past' : History} {r r' : GraphRun} {m : Move}

theorem Orderly.offered_length_le (h : Orderly g k past r) :
    past.dispatched.length + past.dropped.length + r.ready.length ≤ g.nodes.length := by
  have hsub : (past.offered r) ⊆ g.nodes := fun n hn => ((h.opened.mem n).1 hn).1
  have hle := (h.opened.nodup.of_map.subperm hsub).length_le
  simpa only [History.offered, List.length_append, List.length_map] using hle

/-- What is left to do: nodes to take from the ready list, actions until the calls, and actions after
them. A later component may grow when an earlier one shrinks. -/
def remaining (g : Graph) (past : History) (r : GraphRun) : Nat × Nat × Nat :=
  (g.nodes.length - (past.dispatched.length + past.dropped.length),
    load (fun j => Job.untilCall j.node j.phase) r.jobs,
    load (fun j => Job.untilReceived j.phase) r.jobs + r.reports.length)

def Fewer : Nat × Nat × Nat → Nat × Nat × Nat → Prop :=
  Prod.Lex Nat.lt (Prod.Lex Nat.lt Nat.lt)

theorem fewer_wf : WellFounded Fewer :=
  (Prod.lex Nat.lt_wfRel (Prod.lex Nat.lt_wfRel Nat.lt_wfRel)).wf

theorem Step.fewer (h : Orderly g k past r) (hs : Step w past r m past' r') (hm : m ≠ .cancel) :
    Fewer (remaining g past' r') (remaining g past r) := by
  have hle := h.offered_length_le
  cases hs with
  | drop ready =>
    rw [ready, List.length_cons] at hle
    refine Prod.Lex.left _ _ ?_
    simp only [Nat.lt_eq, List.length_append, List.length_singleton]
    omega
  | dispatch ready =>
    rw [ready, List.length_cons] at hle
    refine Prod.Lex.left _ _ ?_
    simp only [Nat.lt_eq, List.length_append, List.length_singleton]
    omega
  | work jobs action =>
    refine Prod.Lex.right _ ?_
    simp only [jobs, load_append, load]
    rcases action.advances with hcall | ⟨hcall, hreceived⟩
    · refine Prod.Lex.left _ _ ?_
      simp only [Nat.lt_eq]
      omega
    · rw [hcall]
      refine Prod.Lex.right _ ?_
      simp only [Nat.lt_eq]
      omega
  | report jobs finished =>
    refine Prod.Lex.right _ ?_
    simp only [jobs, load_append, load, finished, Job.untilCall, Nat.zero_add]
    refine Prod.Lex.right _ ?_
    simp only [Nat.lt_eq, Job.untilReceived, List.length_append, List.length_singleton]
    omega
  | @receive c rest ready reports =>
    obtain ⟨-, hjobs, hreports, -⟩ := takeIn_keeps { r with reports := rest } c
    refine Prod.Lex.right _ ?_
    rw [hjobs, hreports, reports]
    refine Prod.Lex.right _ ?_
    simp only [Nat.lt_eq, List.length_cons]
    omega
  | cancel => exact absurd rfl hm

/-- Where nobody cancels any more, a run is over after finitely many moves. -/
theorem Orderly.ends (hg : g.WellFormed) (h : Orderly g k past r) :
    Acc (fun r' r => ∃ m, m ≠ .cancel ∧ r.step w m = some r') r := by
  induction hx : remaining g past r using fewer_wf.induction generalizing past r with
  | _ x ih =>
    subst hx
    refine ⟨_, fun r' ⟨m, hm, hs⟩ => ?_⟩
    have hstep := step_cases hs past
    exact ih _ (hstep.fewer h hm) (h.step hg hstep) rfl

/-- A run that is not over can go on. -/
theorem Orderly.exists_move (h : Orderly g k past r) (w : RunSetting) (hdone : r.isDone = false) :
    ∃ m, m ≠ .cancel ∧ (r.step w m).isSome = true := by
  cases hready : r.ready with
  | cons n rest =>
    cases hs : r.isStopped with
    | true => exact ⟨.dispatch, by decide, by simp [GraphRun.step, hready, hs]⟩
    | false => exact ⟨.dispatch, by decide, by simp [GraphRun.step, hready, hs]⟩
  | nil =>
    cases hreports : r.reports with
    | cons c rest => exact ⟨.receive, by decide, by simp [GraphRun.step, hready, hreports]⟩
    | nil =>
      cases hjobs : r.jobs with
      | nil =>
        have hzero := h.outstanding_eq
        rw [hjobs, hreports] at hzero
        simp [isDone, hready, hzero] at hdone
      | cons j rest =>
        cases ho : j.outcome? with
        | none => exact ⟨.work 0, by decide, by simp [GraphRun.step, hjobs, ho]⟩
        | some outcome => exact ⟨.report 0, by decide, by simp [GraphRun.step, hjobs, ho]⟩

/-! ### The end of a run -/

namespace Orderly

/-- At the end nothing waits, works or reports any more. -/
theorem idle (h : Orderly g k past r) (hdone : r.isDone = true) :
    r.ready = [] ∧ r.jobs = [] ∧ r.reports = [] := by
  unfold isDone at hdone
  rw [Bool.and_eq_true, List.isEmpty_iff, beq_iff_eq] at hdone
  have hzero := h.outstanding_eq
  rw [hdone.2] at hzero
  exact ⟨hdone.1, List.length_eq_zero_iff.1 (by omega), List.length_eq_zero_iff.1 (by omega)⟩

/-- All jobs have finished and reported. -/
theorem finished (h : Orderly g k past r) (hdone : r.isDone = true) {n : Node}
    (hn : n ∈ past.dispatched.map (·.node)) :
    ∃ j ∈ past.reported, j.node = n ∧ ∃ outcome, j.phase = .finished outcome := by
  obtain ⟨-, hjobs, hreports⟩ := h.idle hdone
  have hplaced := h.placed
  have harrived := h.arrived
  rw [hjobs, List.nil_append] at hplaced
  rw [hreports, List.append_nil] at harrived
  obtain ⟨j, hj, rfl⟩ := List.mem_map.1 (hplaced.mem_iff.2 hn)
  obtain ⟨c, -, -, hphase⟩ := exists_partner (List.Forall₂.flip (R := flip Completion.Of) harrived) hj
  exact ⟨j, hj, rfl, _, hphase⟩

theorem not_dropped (h : Orderly g k past r) (hgoing : r.isStopped = false) : past.dropped = [] := by
  by_contra hne
  rw [h.dropped hne] at hgoing
  cases hgoing

theorem completed_of_no_fatal (h : Orderly g k past r) (hf : r.fatal = none) :
    past.completed = past.received.map (·.node) := by
  unfold History.completed
  rw [← List.filterMap_eq_map]
  apply List.filterMap_congr
  intro c hc
  obtain ⟨st, hst⟩ := h.fatal.1 hf c hc
  rw [hst]
  rfl

/-- The nodes whose completions arrive are those whose jobs have reported. -/
theorem received_perm (h : Orderly g k past r) (hdone : r.isDone = true) :
    (past.received.map (·.node)).Perm (past.dispatched.map (·.node.id)) := by
  obtain ⟨-, hjobs, hreports⟩ := h.idle hdone
  have harrived := h.arrived_ids
  have hplaced := h.placed.map (·.id)
  rw [hreports, List.append_nil] at harrived
  rw [hjobs, List.nil_append, List.map_map, List.map_map] at hplaced
  rw [harrived]
  exact hplaced

/-- A run that ends undisturbed has gone through all nodes: the first one left out would wait for
nothing, so it would have been offered. -/
theorem dispatched_perm (hg : g.WellFormed) (h : Orderly g k past r) (hdone : r.isDone = true)
    (hgoing : r.isStopped = false) : (past.dispatched.map (·.node)).Perm g.nodes := by
  have hfatal : r.fatal = none := by
    have hnot := (Bool.or_eq_false_iff.1 hgoing).1
    simpa using hnot
  have hoffered : past.offered r = past.dispatched.map (·.node) := by
    rw [History.offered, (h.idle hdone).1, h.not_dropped hgoing, List.append_nil, List.append_nil]
  have hcompleted : ∀ n, n ∈ past.dispatched.map (·.node) → n.id ∈ past.completed := by
    intro n hn
    obtain ⟨j, hj, rfl⟩ := List.mem_map.1 hn
    rw [h.completed_of_no_fatal hfatal, (h.received_perm hdone).mem_iff]
    exact List.mem_map_of_mem hj
  have hall : ∀ front back, g.nodes = front ++ back → ∀ n ∈ front, n ∈ past.dispatched.map (·.node) := by
    intro front
    induction front using List.reverseRecOn with
    | nil => simp
    | append_singleton front b ih =>
      intro back hsplit n hn
      rw [List.append_assoc, List.singleton_append] at hsplit
      have hfront := ih (b :: back) hsplit
      rcases List.mem_append.1 hn with hn | hn
      · exact hfront n hn
      · obtain rfl := List.mem_singleton.1 hn
        have hmem : n ∈ g.nodes := by rw [hsplit]; simp
        rw [← hoffered]
        refine (h.opened.mem n).2 ⟨hmem, List.eq_nil_iff_forall_not_mem.2 ?_⟩
        intro p hp
        obtain ⟨hdep, hnot⟩ := Graph.mem_waitingFor.1 hp
        obtain ⟨a, ha, rfl⟩ := hg.forward front n back hsplit p (Graph.mem_sourcesOf.1 hdep)
        exact hnot (hcompleted a (hfront a ha))
  refine (List.perm_ext_iff_of_nodup ?_ hg.ids.of_map).2 fun n => ⟨?_, ?_⟩
  · rw [← hoffered]
    exact h.opened.nodup.of_map
  · intro hn
    rw [← hoffered] at hn
    exact ((h.opened.mem n).1 hn).1
  · intro hn
    exact hall g.nodes [] (List.append_nil _).symm n hn

end Orderly

/-! ### Terminal states -/

/-- A job that has settled its node has brought it into the terminal state that it reports. -/
def Truthful (past : History) (r : GraphRun) : Prop :=
  ∀ j ∈ r.jobs ++ past.reported, ∀ st, j.phase = .settled st ∨ j.phase = .finished (.ok st) →
    st.isTerminal = true ∧ r.state.tracker.state? j.node.id = some st

theorem Truthful.step (h : Truthful past r) (hs : Step w past r m past' r') : Truthful past' r' := by
  cases hs with
  | dispatch =>
    intro j hj st hst
    simp only [List.mem_append, List.mem_singleton] at hj
    rcases hj with (hj | rfl) | hj
    · exact h j (List.mem_append_left _ hj) st hst
    · rcases hst with hst | hst <;> cases hst
    · exact h j (List.mem_append_right _ hj) st hst
  | @work front i back s p jobs action =>
    have hold : ∀ j ∈ front ++ back ++ past.reported, ∀ st,
        j.phase = .settled st ∨ j.phase = .finished (.ok st) →
        st.isTerminal = true ∧ s.tracker.state? j.node.id = some st := by
      intro j hj st hst
      have hmem : j ∈ r.jobs ++ past.reported := by
        rw [jobs]
        simp only [List.mem_append, List.mem_cons] at hj ⊢
        tauto
      obtain ⟨hterminal, hstate⟩ := h j hmem st hst
      exact ⟨hterminal, action.terminal hterminal hstate⟩
    intro j hj st hst
    simp only [List.mem_append, List.mem_cons] at hj
    rcases hj with (hj | rfl | hj) | hj
    · exact hold j (by simp [hj]) st hst
    · exact action.settled hst fun hi => h i (by simp [jobs]) st (Or.inl hi)
    · exact hold j (by simp [hj]) st hst
    · exact hold j (by simp [hj]) st hst
  | report jobs =>
    intro j hj st hst
    refine h j ?_ st hst
    rw [jobs]
    simp only [List.mem_append, List.mem_cons] at hj ⊢
    tauto
  | @receive c rest =>
    obtain ⟨hstate, hjobs, -, -⟩ := takeIn_keeps { r with reports := rest } c
    intro j hj st hst
    rw [hjobs] at hj
    rw [hstate]
    exact h j hj st hst
  | _ => exact h

theorem Reached.truthful {allowed : Move → Prop} {s : RunState}
    (h : Reached allowed w (GraphRun.start w g s k) past r) : Truthful past r :=
  h.invariant (by simp [Truthful, GraphRun.start]) fun ht _ hs => ht.step hs

end GraphRun

end CalcCycle
