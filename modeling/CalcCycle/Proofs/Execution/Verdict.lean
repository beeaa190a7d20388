import CalcCycle.Proofs.Cache.Open
import CalcCycle.Execution.Job
import Mathlib.Data.List.Nodup
import Mathlib.Tactic.SplitIfs

/-! What the values at hand make of a node. Where an input is absent the node fails without a call;
else its calculation is called on all of its inputs, and the answer is either written as a whole or
fails the node. -/

namespace CalcCycle

/-- How a node ends. -/
inductive Verdict
  | executed (vs : List Computed)
  | failed (reason : FailureReason)

/-- The value that the list has for a specification. -/
def valueIn (vs : List Computed) (spec : Specification) : Option Payload :=
  (vs.find? (·.specification == spec)).map (·.payload)

namespace Verdict

def state : Verdict → NodeState
  | executed _ => .executed
  | failed _ => .failed

def reason? : Verdict → Option FailureReason
  | executed _ => none
  | failed reason => some reason

/-- The value that the node leaves for one of its outputs. -/
def value? : Verdict → Specification → Option Payload
  | executed vs, spec => valueIn vs spec
  | failed _, _ => none

end Verdict

namespace Values

/-- Those of the specifications that have no value, in order. -/
def absent (V : Values) (specs : List Specification) : List Specification :=
  specs.filter fun spec => (V.get? spec).isNone

/-- The values of the specifications that have one. -/
def gather (V : Values) (specs : List Specification) : Inputs :=
  Inputs.ofValues (specs.filterMap fun spec => (V.get? spec).map fun p => ⟨spec, p⟩)

variable {V V' : Values} {specs : List Specification} {spec : Specification}

theorem absent_congr (h : ∀ spec ∈ specs, V.get? spec = V'.get? spec) : V.absent specs = V'.absent specs := by
  unfold absent
  exact List.filter_congr fun spec hspec => by rw [h spec hspec]

theorem gather_congr (h : ∀ spec ∈ specs, V.get? spec = V'.get? spec) : V.gather specs = V'.gather specs := by
  unfold gather
  rw [List.filterMap_congr fun spec hspec => by rw [h spec hspec]]

theorem absent_concat_none (h : V.get? spec = none) :
    V.absent (specs ++ [spec]) = V.absent specs ++ [spec] := by
  simp [absent, List.filter_append, h]

theorem absent_concat_some {p : Payload} (h : V.get? spec = some p) :
    V.absent (specs ++ [spec]) = V.absent specs := by
  simp [absent, List.filter_append, h]

theorem gather_concat_none (h : V.get? spec = none) : V.gather (specs ++ [spec]) = V.gather specs := by
  simp [gather, List.filterMap_append, h]

theorem gather_concat_some {p : Payload} (h : V.get? spec = some p) :
    V.gather (specs ++ [spec]) = Inputs.add (V.gather specs) ⟨spec, p⟩ := by
  simp [gather, Inputs.ofValues, List.filterMap_append, h]

end Values

namespace Node

/-- How the node ends if its calculation answers so. -/
def verdictOn (n : Node) : Outcome → Verdict
  | .values vs =>
    match Job.validate n vs with
    | .ok () => .executed vs
    | .error f => .failed (.functionFault f.message)
  | .fault f => .failed (.functionFault f.message)
  | .crash message =>
    .failed (.functionFault (Fault.calculation ("panicked: " ++ Job.crashText message)).message)

/-- How the node ends over the values, with a calculation that answers by the function. -/
def judge (n : Node) (V : Values) (answer : Inputs → Outcome) : Verdict :=
  if V.absent n.inputs = [] then n.verdictOn (answer (V.gather n.inputs))
  else .failed (.missingInputs (V.absent n.inputs))

/-- The answers of the calculation in one job of a run. -/
def answer (n : Node) (w : RunSetting) (job : Nat) (inputs : Inputs) : Outcome :=
  (n.calculation.call ⟨w.view, w.token, job⟩ n.target inputs).outcome

theorem judge_congr {n : Node} {V V' : Values} {answer : Inputs → Outcome}
    (h : ∀ spec ∈ n.inputs, V.get? spec = V'.get? spec) : n.judge V answer = n.judge V' answer := by
  unfold judge
  rw [Values.absent_congr h, Values.gather_congr h]

theorem judge_of_absent {n : Node} {V : Values} {answer : Inputs → Outcome}
    (h : V.absent n.inputs ≠ []) : n.judge V answer = .failed (.missingInputs (V.absent n.inputs)) :=
  if_neg h

theorem judge_of_present {n : Node} {V : Values} {answer : Inputs → Outcome}
    (h : V.absent n.inputs = []) : n.judge V answer = n.verdictOn (answer (V.gather n.inputs)) :=
  if_pos h

end Node

namespace Job

theorem checkOutputs_ok {n : Node} {seen : List Specification} {vs : List Computed}
    (h : checkOutputs n seen vs = .ok ()) :
    (∀ v ∈ vs, v.specification ∈ n.outputs ∧ v.specification ∉ seen) ∧
      (vs.map (·.specification)).Nodup := by
  induction vs generalizing seen with
  | nil => simp
  | cons v rest ih =>
    rw [checkOutputs] at h
    split_ifs at h with hproduces hseen
    obtain ⟨hrest, hnodup⟩ := ih h
    have hout : v.specification ∈ n.outputs := by simpa [Node.produces] using hproduces
    refine ⟨?_, List.nodup_cons.2 ⟨?_, hnodup⟩⟩
    · intro u hu
      rcases List.mem_cons.1 hu with rfl | hu
      · exact ⟨hout, hseen⟩
      · exact ⟨(hrest u hu).1, fun hs => (hrest u hu).2 (List.mem_cons_of_mem _ hs)⟩
    · intro hmem
      obtain ⟨u, hu, he⟩ := List.mem_map.1 hmem
      exact (hrest u hu).2 (he ▸ List.mem_cons_self)

/-- Values that pass the check are declared, and each is there once. -/
theorem validate_ok {n : Node} {vs : List Computed} (h : validate n vs = .ok ()) :
    (∀ v ∈ vs, v.specification ∈ n.outputs) ∧ (vs.map (·.specification)).Nodup := by
  unfold validate at h
  split_ifs at h
  obtain ⟨hdeclared, hnodup⟩ := checkOutputs_ok h
  exact ⟨fun v hv => (hdeclared v hv).1, hnodup⟩

/-- What a job goes on to do when it knows how its node ends. -/
def phaseFor : Verdict → Phase
  | .executed vs => .writing vs
  | .failed reason => .failing reason

theorem afterCall_eq {w : RunSetting} (n : Node) {o : Outcome}
    (hw : w.containCrashes = true ∨ ∀ message, o ≠ .crash message) :
    afterCall w n o = phaseFor (n.verdictOn o) := by
  cases o with
  | values vs =>
    cases hv : validate n vs with
    | ok u => simp only [afterCall, Node.verdictOn, hv, phaseFor]
    | error f => simp only [afterCall, Node.verdictOn, hv, phaseFor]
  | fault f => rfl
  | crash message =>
    have hcontained := hw.resolve_right fun hnever => hnever message rfl
    simp [afterCall, Node.verdictOn, hcontained, phaseFor]

end Job

theorem Node.verdictOn_executed {n : Node} {o : Outcome} {vs : List Computed}
    (h : n.verdictOn o = .executed vs) :
    (∀ v ∈ vs, v.specification ∈ n.outputs) ∧ (vs.map (·.specification)).Nodup := by
  unfold Node.verdictOn at h
  split at h
  · split at h
    · next hv =>
      cases h
      exact Job.validate_ok hv
    · cases h
  · cases h
  · cases h

/-- The values that a node may write are declared, and each is there once. -/
theorem Node.judge_executed {n : Node} {V : Values} {answer : Inputs → Outcome} {vs : List Computed}
    (h : n.judge V answer = .executed vs) :
    (∀ v ∈ vs, v.specification ∈ n.outputs) ∧ (vs.map (·.specification)).Nodup := by
  by_cases habsent : V.absent n.inputs = []
  · rw [judge_of_present habsent] at h
    exact verdictOn_executed h
  · rw [judge_of_absent habsent] at h
    cases h

/-! ### Values one by one -/

theorem valueIn_concat_self {done : List Computed} {v : Computed}
    (h : ∀ u ∈ done, u.specification ≠ v.specification) :
    valueIn (done ++ [v]) v.specification = some v.payload := by
  have hnone : done.find? (·.specification == v.specification) = none := by
    simpa [List.find?_eq_none] using h
  simp [valueIn, List.find?_append, hnone]

theorem valueIn_concat_of_ne {done : List Computed} {v : Computed} {spec : Specification}
    (h : spec ≠ v.specification) : valueIn (done ++ [v]) spec = valueIn done spec := by
  simp [valueIn, List.find?_append, Ne.symm h]

theorem valueIn_eq_none {vs : List Computed} {spec : Specification}
    (h : ∀ v ∈ vs, v.specification ≠ spec) : valueIn vs spec = none := by
  simpa [valueIn, List.find?_eq_none] using h

end CalcCycle
