import CalcCycle.Proofs.Execution.Commit
import CalcCycle.Proofs.Execution.Failures
import CalcCycle.Proofs.Execution.Provenance

/-! A fatal failure halts the run of a graph. From the completion on that brings it, nothing is dispatched
any more, while the jobs under way come to their ends and are taken in; of further failures none counts. A
node that has not been dispatched is left alone, and so are the values it would have written. -/

namespace CalcCycle

/-- The failure that the completion brings. -/
def Completion.failure? (c : Completion) : Option Failure :=
  match c.outcome with
  | .ok _ => none
  | .error e => some e

/-- The first failure among the completions that have been taken in. -/
def History.firstFailure (past : History) : Option Failure := past.received.findSome? Completion.failure?

/-- From `s` to `s'` the jobs have touched their own nodes and the outputs of their nodes, as far as the
tracker and the open cache tell. -/
structure RunState.Confined (w : RunSetting) (s : RunState) (jobs : List Job) (s' : RunState) : Prop where
  nodes : ∀ id, id ∉ jobs.map (·.node.id) →
    s'.tracker.state? id = s.tracker.state? id ∧ s'.tracker.reason? id = s.tracker.reason? id
  values : ∀ V', s'.caches.open? w.cache = some V' → ∃ V, s.caches.open? w.cache = some V ∧
    ∀ spec, (∀ j ∈ jobs, spec ∉ j.node.outputs) → V'.get? spec = V.get? spec

namespace RunState.Confined
variable {w : RunSetting} {s s' s'' : RunState} {jobs jobs' : List Job}

theorem refl (w : RunSetting) (s : RunState) : Confined w s [] s :=
  ⟨fun _ _ => ⟨rfl, rfl⟩, fun V' ho => ⟨V', ho, fun _ _ => rfl⟩⟩

theorem trans (h : Confined w s jobs s') (h' : Confined w s' jobs' s'') : Confined w s (jobs ++ jobs') s'' where
  nodes id hid := by
    rw [List.map_append, List.mem_append, not_or] at hid
    obtain ⟨hstate, hreason⟩ := h.nodes id hid.1
    obtain ⟨hstate', hreason'⟩ := h'.nodes id hid.2
    exact ⟨hstate'.trans hstate, hreason'.trans hreason⟩
  values V'' ho := by
    obtain ⟨V', ho', hsame'⟩ := h'.values V'' ho
    obtain ⟨V, hopen, hsame⟩ := h.values V' ho'
    refine ⟨V, hopen, fun spec hspec => ?_⟩
    obtain ⟨hspec, hspec'⟩ := List.forall_mem_append.1 hspec
    rw [hsame' spec hspec', hsame spec hspec]

/-- More jobs may have touched more. -/
theorem mono (h : Confined w s jobs s') (hsub : ∀ j ∈ jobs, j.node ∈ jobs'.map (·.node)) :
    Confined w s jobs' s' where
  nodes id hid := by
    refine h.nodes id fun hmem => hid ?_
    obtain ⟨j, hj, rfl⟩ := List.mem_map.1 hmem
    obtain ⟨i, hi, hnode⟩ := List.mem_map.1 (hsub j hj)
    exact List.mem_map.2 ⟨i, hi, congrArg (·.id) hnode⟩
  values V' ho := by
    obtain ⟨V, hopen, hsame⟩ := h.values V' ho
    refine ⟨V, hopen, fun spec hspec => hsame spec fun j hj => ?_⟩
    obtain ⟨i, hi, hnode⟩ := List.mem_map.1 (hsub j hj)
    rw [← hnode]
    exact hspec i hi

theorem closed {g : Graph} {r : GraphRun} (h : Confined w s jobs r.state) :
    Confined w s jobs (r.closed w g).state := ⟨h.nodes, h.values⟩

end RunState.Confined

/-- An action stays with the node of its job, if that writes declared values only. -/
theorem Job.Action.confined {w : RunSetting} {s s' : RunState} {j : Job} {p : Phase}
    (hj : j.phase.Traced (fun _ => False) .empty j.node) (h : Job.Action w s j s' p) :
    RunState.Confined w s [j] s' where
  nodes id hid := by
    have hne : id ≠ j.node.id := by simpa using hid
    exact ⟨h.state?_of_ne hne, h.reason?_of_ne hne⟩
  values V' ho := by
    cases h with
    | @call inputs reply =>
      rw [Interrupt.caches_foldl] at ho
      exact ⟨V', Interrupt.open_of_onCaches ho, fun _ _ => rfl⟩
    | @write v rest caches phase written =>
      rw [phase] at hj
      obtain ⟨V, hopen, rfl⟩ := CacheStore.open_of_write written ho
      refine ⟨V, hopen, fun spec hspec => ?_⟩
      have hne : spec ≠ v.specification := by
        rintro rfl
        exact hspec j List.mem_cons_self (hj v List.mem_cons_self)
      rw [SortedMap.get?_insert, if_neg hne]
    | _ => exact ⟨V', ho, fun _ _ => rfl⟩

namespace GraphRun
variable {w : RunSetting} {g : Graph} {k : Nat} {s : RunState} {past past' : History} {r r' : GraphRun} {m : Move}
  {e : Failure} {allowed : Move → Prop}

/-! ### The first failure -/

theorem takeIn_fatal_eq (r : GraphRun) (c : Completion) : (r.takeIn c).fatal = r.fatal.or c.failure? := by
  unfold Completion.failure?
  cases hc : c.outcome with
  | error e =>
    rw [takeIn_error hc]
    cases r.fatal <;> rfl
  | ok st =>
    unfold takeIn
    rw [hc]
    cases st with
    | _ =>
      simp only [(foldl_countDown_keeps _ _).2.2.2]
      exact (Option.or_none).symm

/-- What the scheduler keeps is the first failure that it has taken in. -/
theorem Reached.fatal_eq (h : Reached allowed w (.start w g s k) past r) : r.fatal = past.firstFailure := by
  apply h.invariant (P := fun past r => r.fatal = past.firstFailure) rfl
  rintro past r m past' r' hfatal - hstep
  cases hstep with
  | @receive c rest =>
    rw [takeIn_fatal_eq, History.firstFailure, List.findSome?_append, ← History.firstFailure, ← hfatal]
    simp
  | _ => exact hfatal

/-- Once there is a fatal failure it is kept, and nothing is dispatched any more. -/
theorem Reached.after_fatal {r₀ : GraphRun} (hfatal : r₀.fatal = some e) (h : Reached allowed w r₀ past r) :
    r.fatal = some e ∧ past.dispatched = [] := by
  apply h.invariant (P := fun past r => r.fatal = some e ∧ past.dispatched = []) ⟨hfatal, rfl⟩
  rintro past r m past' r' ⟨hr, hnone⟩ - hstep
  cases hstep with
  | dispatch _ going => simp [isStopped, hr] at going
  | receive =>
    refine ⟨?_, hnone⟩
    rw [takeIn_fatal_eq]
    simp only [hr, Option.some_or]
  | _ => exact ⟨hr, hnone⟩

/-! ### What is left alone -/

theorem confined_step (ho : Orderly g k past r) (ht : ∀ j ∈ r.jobs, j.phase.Traced (fun _ => False) .empty j.node)
    (h : RunState.Confined w s past.dispatched r.state) (hs : Step w past r m past' r') :
    RunState.Confined w s past'.dispatched r'.state := by
  cases hs with
  | dispatch => exact h.mono fun j hj => by simp [List.mem_map_of_mem hj]
  | @work front j back s' p jobs action =>
    have hj : j ∈ r.jobs := by simp [jobs]
    refine (h.trans (action.confined (ht j hj))).mono fun i hi => ?_
    rcases List.mem_append.1 hi with hi | hi
    · exact List.mem_map_of_mem hi
    · rw [List.mem_singleton.1 hi]
      exact ho.node_mem (List.mem_append_left _ hj)
  | @receive c rest =>
    rw [(takeIn_keeps { r with reports := rest } c).1]
    exact h
  | _ => exact ⟨h.nodes, h.values⟩

theorem Reached.confined (hg : g.WellFormed) (h : Reached allowed w (.start w g s k) past r) :
    RunState.Confined w s past.dispatched r.state := by
  have hstart : RunState.Confined w s [] (GraphRun.start w g s k).state :=
    ⟨fun _ _ => ⟨rfl, rfl⟩, fun V' ho => ⟨V', ho, fun _ _ => rfl⟩⟩
  apply h.invariant_along (P := fun past r => RunState.Confined w s past.dispatched r.state) hstart
  intro past r m past' r' before hconfined _ hstep
  -- nothing is asked to be kept, so the trace says only that jobs write what their nodes declare
  have ht : Traced w (fun _ => False) .empty g.nodes s.calls r :=
    before.traced hg (fun _ _ _ _ => id) fun _ _ _ => False.elim
  exact confined_step (before.orderly hg) ht.jobs hconfined hstep

/-! ### A run with a fatal failure -/

/-- The run of `g` that began in the state `s` has come to `r`, and it has been halted by the failure `e`. -/
structure HaltedBy (w : RunSetting) (g : Graph) (s : RunState) (past : History) (r : GraphRun) (e : Failure) :
    Prop where
  fatal : r.fatal = some e
  /-- Whatever comes, nothing is dispatched any more, and no other failure takes the place of this one. -/
  halted : ∀ past' r', Reached (fun _ => True) w r past' r' → past'.dispatched = [] ∧ r'.fatal = some e
  /-- A run that is not over can go on without being cancelled, but not for ever. -/
  progress : r.isDone = false → ∃ m, m ≠ .cancel ∧ (r.step w m).isSome = true
  ends : Acc (fun r' r => ∃ m, m ≠ .cancel ∧ r.step w m = some r') r
  /-- In the end the completions of all nodes that were dispatched have been taken in. -/
  received : r.isDone = true → (past.received.map (·.node)).Perm (past.dispatched.map (·.node.id))
  result : r.isDone = true → (r.closed w g).result = .error e
  nodes : ∀ n ∈ g.nodes, n ∉ past.dispatched.map (·.node) →
    r.state.tracker.state? n.id = s.tracker.state? n.id ∧ r.state.tracker.reason? n.id = s.tracker.reason? n.id
  values : ∀ V', r.state.caches.open? w.cache = some V' → ∃ V, s.caches.open? w.cache = some V ∧
    ∀ n ∈ g.nodes, n ∉ past.dispatched.map (·.node) → ∀ spec ∈ n.outputs, V'.get? spec = V.get? spec

theorem Reached.haltedBy (hg : g.Accepted) (h : Reached (fun _ => True) w (.start w g s k) past r)
    (he : past.firstFailure = some e) : HaltedBy w g s past r e := by
  have hwf := hg.wellFormed
  have ho := h.orderly hwf
  have hconfined := h.confined hwf
  have hfatal : r.fatal = some e := h.fatal_eq.trans he
  refine
    { fatal := hfatal
      halted := fun past' r' hlater => (hlater.after_fatal hfatal).symm
      progress := ho.exists_move w
      ends := ho.ends hwf
      received := ho.received_perm
      result := fun _ => result_of_fatal hfatal
      nodes := ?_
      values := ?_ }
  · intro n hn hnot
    refine hconfined.nodes n.id fun hmem => hnot ?_
    obtain ⟨j, hj, hid⟩ := List.mem_map.1 hmem
    have hnode := List.mem_map_of_mem (f := (·.node)) hj
    rwa [Graph.eq_of_id_eq hwf.ids (ho.dispatched_mem hnode).1 hn hid] at hnode
  · intro V' hopen
    obtain ⟨V, hopen₀, hsame⟩ := hconfined.values V' hopen
    refine ⟨V, hopen₀, fun n hn hnot spec hspec => hsame spec fun j hj hout => hnot ?_⟩
    have hnode := List.mem_map_of_mem (f := (·.node)) hj
    rwa [hwf.eq_of_mem_outputs (ho.dispatched_mem hnode).1 hn hout hspec] at hnode

end GraphRun

end CalcCycle
