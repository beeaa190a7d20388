import CalcCycle.Proofs.Cache.Open
import CalcCycle.Proofs.Execution.Scheduling
import CalcCycle.Proofs.Execution.Verdict

/-! Where the inputs of a call come from. Values that no node of a graph produces stay in the cache as
they are, so a calculation that reads them is called with exactly them, or not at all. This holds
whatever else goes wrong: the cache may be closed, jobs may be refused, and a crash may end the run. -/

namespace CalcCycle

/-- As long as the cache is open, it has the values of `V` for the kept specifications. -/
def CacheStore.Agrees (s : CacheStore) (h : CacheHandle) (kept : Specification → Prop) (V : Values) : Prop :=
  ∀ V', s.open? h = some V' → ∀ spec, kept spec → V'.get? spec = V.get? spec

/-- The inputs have the value of `V` for the specification, if it is kept. -/
def Inputs.Has (inputs : Inputs) (kept : Specification → Prop) (V : Values) (spec : Specification) : Prop :=
  kept spec → ∃ p, V.get? spec = some p ∧ inputs.get? spec = some p

/-- What a job of the node has read so far, and what it is about to write. -/
def Phase.Traced (kept : Specification → Prop) (V : Values) (n : Node) : Phase → Prop
  | .reading rest inputs missing =>
    ∀ spec ∈ n.inputs, spec ∈ rest ∨ spec ∈ missing ∨ inputs.Has kept V spec
  | .ready inputs => ∀ spec ∈ n.inputs, inputs.Has kept V spec
  | .writing rest => ∀ v ∈ rest, v.specification ∈ n.outputs
  | _ => True

/-- The call is one of a node of the list, on the values of `V`. -/
def Call.Traced (kept : Specification → Prop) (V : Values) (nodes : List Node) (c : Call) : Prop :=
  ∃ n ∈ nodes, n.id = c.node ∧ ∀ spec ∈ n.inputs, c.inputs.Has kept V spec

variable {kept : Specification → Prop} {V : Values} {w : RunSetting}

theorem Inputs.Has.add {inputs : Inputs} {spec : Specification} (h : inputs.Has kept V spec) {v : Computed}
    (hv : kept v.specification → V.get? v.specification = some v.payload) :
    (inputs.add v).Has kept V spec := by
  intro hkept
  by_cases he : spec = v.specification
  · rw [he] at hkept ⊢
    exact ⟨v.payload, hv hkept, by simp [Inputs.add, SortedMap.get?_insert]⟩
  · obtain ⟨p, hp, hin⟩ := h hkept
    exact ⟨p, hp, by rw [Inputs.add, SortedMap.get?_insert, if_neg he, hin]⟩

namespace Phase.Traced
variable {n : Node} {spec : Specification} {rest missing : List Specification} {inputs : Inputs}

theorem read (h : Traced kept V n (.reading (spec :: rest) inputs missing)) {p : Payload}
    (hp : kept spec → V.get? spec = some p) :
    Traced kept V n (.reading rest (Inputs.add inputs ⟨spec, p⟩) missing) := by
  intro spec' hspec'
  rcases h spec' hspec' with hrest | hmissing | hhas
  · rcases List.mem_cons.1 hrest with rfl | hrest
    · right
      right
      intro hkept
      exact ⟨p, hp hkept, by simp [Inputs.add, SortedMap.get?_insert]⟩
    · exact Or.inl hrest
  · exact Or.inr (Or.inl hmissing)
  · exact Or.inr (Or.inr (hhas.add hp))

theorem miss (h : Traced kept V n (.reading (spec :: rest) inputs missing)) :
    Traced kept V n (.reading rest inputs (missing ++ [spec])) := by
  intro spec' hspec'
  rcases h spec' hspec' with hrest | hmissing | hhas
  · rcases List.mem_cons.1 hrest with rfl | hrest
    · simp
    · exact Or.inl hrest
  · simp [hmissing]
  · exact Or.inr (Or.inr hhas)

theorem complete (h : Traced kept V n (.reading [] inputs [])) : Traced kept V n (.ready inputs) := by
  intro spec hspec
  simpa using h spec hspec

end Phase.Traced

namespace Job
variable {s s' : RunState} {j : Job} {p : Phase}

theorem foldl_interrupt_agrees (l : List Interrupt) (h : s.caches.Agrees w.cache kept V) :
    (l.foldl (RunState.interrupt w) s).caches.Agrees w.cache kept V := by
  induction l generalizing s with
  | nil => exact h
  | cons i rest ih =>
    rw [List.foldl_cons]
    apply ih
    cases i with
    | cancelCycle => exact h
    | releaseCache => exact fun V' ho => h V' (CacheStore.open_of_release ho)

theorem afterCall_traced (w : RunSetting) (n : Node) (o : Outcome) : (afterCall w n o).Traced kept V n := by
  rcases afterCall_cases w n o with ⟨vs, -, hv, he⟩ | ⟨text, he⟩ | ⟨-, e, he⟩
  · rw [he]
    exact (validate_ok hv).1
  · rw [he]
    trivial
  · rw [he]
    trivial

/-- An action of a job whose node does not produce what is kept. -/
theorem Action.traced (hout : ∀ spec ∈ j.node.outputs, ¬ kept spec)
    (hcaches : s.caches.Agrees w.cache kept V) (hj : j.phase.Traced kept V j.node)
    (h : Action w s j s' p) :
    s'.caches.Agrees w.cache kept V ∧ p.Traced kept V j.node ∧
      ∀ call ∈ s'.calls, call ∈ s.calls ∨
        call.node = j.node.id ∧ ∀ spec ∈ j.node.inputs, call.inputs.Has kept V spec := by
  cases h with
  | announce phase => exact ⟨hcaches, fun spec hspec => Or.inl hspec, fun call hcall => Or.inl hcall⟩
  | @read spec rest inputs missing v phase found =>
    rw [phase] at hj
    obtain ⟨V', hopen, rfl, hvalue⟩ := CacheStore.open_of_read found
    refine ⟨hcaches, hj.read ?_, fun call hcall => Or.inl hcall⟩
    intro hkept
    rw [← hcaches V' hopen _ hkept, hvalue]
  | miss phase =>
    rw [phase] at hj
    exact ⟨hcaches, hj.miss, fun call hcall => Or.inl hcall⟩
  | complete phase =>
    rw [phase] at hj
    exact ⟨hcaches, hj.complete, fun call hcall => Or.inl hcall⟩
  | @call inputs reply phase answer =>
    rw [phase] at hj
    refine ⟨foldl_interrupt_agrees _ hcaches, afterCall_traced _ _ _, ?_⟩
    intro call hcall
    rw [(foldl_interrupt w _ _).2.1, List.mem_append, List.mem_singleton] at hcall
    rcases hcall with hcall | rfl
    · exact Or.inl hcall
    · exact Or.inr ⟨rfl, hj⟩
  | @write v rest caches phase written =>
    rw [phase] at hj
    obtain ⟨hv, hrest⟩ := List.forall_mem_cons.1 hj
    refine ⟨?_, hrest, fun call hcall => Or.inl hcall⟩
    intro V' ho spec hkept
    obtain ⟨V₁, ho₁, rfl⟩ := CacheStore.open_of_write written ho
    have hne : spec ≠ v.specification := by
      rintro rfl
      exact hout _ hv hkept
    rw [SortedMap.get?_insert, if_neg hne, hcaches V₁ ho₁ spec hkept]
  | _ => exact ⟨hcaches, trivial, fun call hcall => Or.inl hcall⟩

end Job

namespace GraphRun

/-- What is kept has been kept so far, and every call since was on the values of `V`. -/
structure Traced (w : RunSetting) (kept : Specification → Prop) (V : Values) (nodes : List Node)
    (before : List Call) (r : GraphRun) : Prop where
  caches : r.state.caches.Agrees w.cache kept V
  jobs : ∀ j ∈ r.jobs, j.phase.Traced kept V j.node
  calls : ∀ call ∈ r.state.calls, call ∈ before ∨ call.Traced kept V nodes

variable {g : Graph} {k : Nat} {past past' : History} {r r' : GraphRun} {m : Move} {before : List Call}

theorem Traced.step (hout : ∀ n ∈ g.nodes, ∀ spec ∈ n.outputs, ¬ kept spec) (ho : Orderly g k past r)
    (h : Traced w kept V g.nodes before r) (hs : Step w past r m past' r') :
    Traced w kept V g.nodes before r' := by
  cases hs with
  | drop | cancel => exact ⟨h.caches, h.jobs, h.calls⟩
  | dispatch =>
    refine ⟨h.caches, ?_, h.calls⟩
    intro j hj
    rcases List.mem_append.1 hj with hj | hj
    · exact h.jobs j hj
    · rw [List.mem_singleton.1 hj]
      trivial
  | @work front j back s p jobs action =>
    have hj : j ∈ r.jobs := by simp [jobs]
    have hn := (ho.dispatched_mem (ho.node_mem (List.mem_append_left _ hj))).1
    obtain ⟨hcaches, hp, hcalls⟩ := action.traced (hout _ hn) h.caches (h.jobs j hj)
    refine ⟨hcaches, ?_, ?_⟩
    · intro i hi
      rcases List.mem_append.1 hi with hi | hi
      · exact h.jobs i (by simp [jobs, hi])
      · rcases List.mem_cons.1 hi with rfl | hi
        · exact hp
        · exact h.jobs i (by simp [jobs, hi])
    · intro call hcall
      rcases hcalls call hcall with hcall | ⟨hid, hhas⟩
      · exact h.calls call hcall
      · exact Or.inr ⟨j.node, hn, hid.symm, hhas⟩
  | @report front j back outcome jobs =>
    refine ⟨h.caches, fun i hi => h.jobs i ?_, h.calls⟩
    rw [jobs]
    rcases List.mem_append.1 hi with hi | hi <;> simp [hi]
  | @receive c rest =>
    obtain ⟨hstate, hjobs, -⟩ := takeIn_keeps { r with reports := rest } c
    exact ⟨by rw [hstate]; exact h.caches, by rw [hjobs]; exact h.jobs, by rw [hstate]; exact h.calls⟩

/-- Every call in a run that is reached was given what is kept, as it was at the start. -/
theorem Reached.traced {allowed : Move → Prop} {s : RunState} (hg : g.WellFormed)
    (hout : ∀ n ∈ g.nodes, ∀ spec ∈ n.outputs, ¬ kept spec) (hcaches : s.caches.Agrees w.cache kept V)
    (h : Reached allowed w (GraphRun.start w g s k) past r) : Traced w kept V g.nodes s.calls r := by
  have hstart : Traced w kept V g.nodes s.calls (.start w g s k) :=
    ⟨hcaches, by simp [GraphRun.start], fun call hcall => Or.inl hcall⟩
  exact h.invariant_along (P := fun _ r => Traced w kept V g.nodes s.calls r) hstart fun before ht _ hstep =>
    ht.step hout (before.orderly hg) hstep

end GraphRun

end CalcCycle
