import CalcCycle.Execution.GraphRun
import CalcCycle.Proofs.Execution.Action

/-! The run of a graph with its history. A state is reached by any sequence of moves that are possible,
so a statement about reached states holds for every order in which workers advance, jobs report,
completions arrive and somebody cancels. -/

namespace CalcCycle

/-- What has happened in the run of a graph. -/
structure History where
  /-- Jobs as they were dispatched, in order. -/
  dispatched : List Job := []
  /-- Nodes that were ready and were not dispatched any more. -/
  dropped : List Node := []
  /-- Jobs as they stood when they reported, in order. -/
  reported : List Job := []
  /-- Completions that the scheduler has taken in, in order. -/
  received : List Completion := []

namespace GraphRun

/-- The job that the scheduler dispatches if it takes a node from the ready list. -/
def nextJob? (r : GraphRun) : Option Job :=
  match r.ready with
  | n :: _ => if r.isStopped then none else some { id := r.lastJob + 1, node := n }
  | [] => none

/-- The node that the scheduler drops if it takes a node from the ready list. -/
def nextDrop? (r : GraphRun) : Option Node := if r.isStopped then r.ready.head? else none

end GraphRun

namespace History

/-- The history after a move that is possible in the run. -/
def record (past : History) (r : GraphRun) : Move → History
  | .dispatch =>
    { past with
      dispatched := past.dispatched ++ r.nextJob?.toList
      dropped := past.dropped ++ r.nextDrop?.toList }
  | .report i => { past with reported := past.reported ++ r.jobs[i]?.toList }
  | .receive => { past with received := past.received ++ r.reports.head?.toList }
  | _ => past

end History

namespace GraphRun

/-- The runs that lead on from `r₀` by moves that are allowed, with their histories. -/
inductive Reached (allowed : Move → Prop) (w : RunSetting) (r₀ : GraphRun) : History → GraphRun → Prop
  | start : Reached allowed w r₀ {} r₀
  | move {past r m r'} (before : Reached allowed w r₀ past r) (ok : allowed m)
    (step : r.step w m = some r') : Reached allowed w r₀ (past.record r m) r'

theorem Reached.mono {allowed allowed' : Move → Prop} (h : ∀ m, allowed m → allowed' m) {w : RunSetting}
    {r₀ r : GraphRun} {past : History} (hr : Reached allowed w r₀ past r) :
    Reached allowed' w r₀ past r := by
  induction hr with
  | start => exact .start
  | move _ ok step ih => exact ih.move (h _ ok) step

/-- Everything a move can do, with the job it concerns. -/
inductive Step (w : RunSetting) (past : History) (r : GraphRun) : Move → History → GraphRun → Prop
  | drop {n rest} (ready : r.ready = n :: rest) (stopped : r.isStopped = true) :
    Step w past r .dispatch { past with dropped := past.dropped ++ [n] } { r with ready := rest }
  | dispatch {n rest} (ready : r.ready = n :: rest) (going : r.isStopped = false) :
    Step w past r .dispatch
      { past with dispatched := past.dispatched ++ [{ id := r.lastJob + 1, node := n }] }
      { r with
        ready := rest
        lastJob := r.lastJob + 1
        jobs := r.jobs ++ [{ id := r.lastJob + 1, node := n }]
        outstanding := r.outstanding + 1 }
  | work {front j back s p} (jobs : r.jobs = front ++ j :: back)
    (action : Job.Action w r.state j s p) :
    Step w past r (.work front.length) past
      { r with state := s, jobs := front ++ { j with phase := p } :: back }
  | report {front j back outcome} (jobs : r.jobs = front ++ j :: back)
    (finished : j.phase = .finished outcome) :
    Step w past r (.report front.length) { past with reported := past.reported ++ [j] }
      { r with jobs := front ++ back, reports := r.reports ++ [⟨j.node.id, outcome⟩] }
  | receive {c rest} (ready : r.ready = []) (reports : r.reports = c :: rest) :
    Step w past r .receive { past with received := past.received ++ [c] }
      ({ r with reports := rest }.takeIn c)
  | cancel : Step w past r .cancel past { r with state := { r.state with cancelled := true } }

theorem exists_split {α : Type} {l : List α} {i : Nat} {a : α} (h : l[i]? = some a) :
    ∃ front back, l = front ++ a :: back ∧ front.length = i := by
  obtain ⟨hi, ha⟩ := List.getElem?_eq_some_iff.1 h
  refine ⟨l.take i, l.drop (i + 1), ?_, by simp; omega⟩
  rw [← ha, ← List.drop_eq_getElem_cons hi, List.take_append_drop]

theorem outcome?_eq_some_iff {j : Job} {outcome : Except Failure NodeState} :
    j.outcome? = some outcome ↔ j.phase = .finished outcome := by
  unfold Job.outcome?
  split <;> simp_all

/-- The cases of a move that is possible. -/
theorem step_cases {w : RunSetting} {r r' : GraphRun} {m : Move} (h : r.step w m = some r')
    (past : History) : Step w past r m (past.record r m) r' := by
  cases m with
  | dispatch =>
    unfold step at h
    cases hr : r.ready with
    | nil => simp [hr] at h
    | cons n rest =>
      cases hs : r.isStopped with
      | true =>
        simp only [hr, hs, if_true, Option.some.injEq] at h
        subst h
        simpa [History.record, nextJob?, nextDrop?, hr, hs] using Step.drop hr hs
      | false =>
        simp only [hr, hs, Bool.false_eq_true, if_false, Option.some.injEq] at h
        subst h
        simpa [History.record, nextJob?, nextDrop?, hr, hs] using Step.dispatch hr hs
  | work i =>
    simp only [step, Option.bind_eq_bind, Option.bind_eq_some_iff] at h
    obtain ⟨j, hj, h⟩ := h
    split_ifs at h with ho
    cases h
    obtain ⟨front, back, hjobs, rfl⟩ := exists_split hj
    have hnone : j.outcome? = none := by simpa using ho
    rw [hjobs, List.set_append_right _ _ (Nat.le_refl _), Nat.sub_self, List.set_cons_zero]
    exact .work hjobs (Job.advance_action w r.state hnone)
  | report i =>
    simp only [step, Option.bind_eq_bind, Option.bind_eq_some_iff] at h
    obtain ⟨j, hj, outcome, ho, h⟩ := h
    cases h
    obtain ⟨front, back, hjobs, rfl⟩ := exists_split hj
    have herase : r.jobs.eraseIdx front.length = front ++ back := by
      rw [hjobs, List.eraseIdx_append_of_length_le (Nat.le_refl _), Nat.sub_self]
      rfl
    rw [herase]
    have hstep : Step w past r (.report front.length) _ _ := .report hjobs (outcome?_eq_some_iff.1 ho)
    simpa [History.record, hj] using hstep
  | receive =>
    simp only [step] at h
    split at h
    · next c rest hr hc =>
      cases h
      simpa [History.record, hc] using (Step.receive hr hc : Step w past r .receive _ _)
    · cases h
  | cancel =>
    cases h
    exact .cancel

section Invariants
variable {allowed : Move → Prop} {w : RunSetting} {r₀ : GraphRun} {P : History → GraphRun → Prop}

/-- What holds at the start and is kept by every move from a run that is reached holds in every run that is
reached. -/
theorem Reached.invariant_along (start : P {} r₀)
    (step : ∀ {past r m past' r'}, Reached allowed w r₀ past r → P past r → allowed m →
      Step w past r m past' r' → P past' r')
    {past : History} {r : GraphRun} (h : Reached allowed w r₀ past r) : P past r := by
  induction h with
  | start => exact start
  | move before ok hs ih => exact step before ih ok (step_cases hs _)

theorem Reached.invariant (start : P {} r₀)
    (step : ∀ {past r m past' r'}, P past r → allowed m → Step w past r m past' r' → P past' r')
    {past : History} {r : GraphRun} (h : Reached allowed w r₀ past r) : P past r :=
  h.invariant_along start fun _ => step

end Invariants

end GraphRun

end CalcCycle
