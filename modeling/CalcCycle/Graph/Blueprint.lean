import CalcCycle.Graph.Model

/-! A blueprint registers calculations for targets and declares the live data at hand. Building it
resolves each requirement: to the first declared output that satisfies it, else to the first declared
live data, else to a value that nobody provides. -/

namespace CalcCycle

structure Registration where
  target : Target
  calculation : Calculation

structure Blueprint where
  registrations : List Registration := []
  liveData : List Requirement := []

inductive Resolution
  | produced (s : Specification)
  | live (declared : Requirement)
  | dangling (r : Requirement)
  deriving DecidableEq

namespace Resolution

def input : Resolution → Specification
  | produced s => s
  | live declared => declared.resolve
  | dangling r => r.resolve

def live? : Resolution → Option Requirement
  | live declared => some declared
  | _ => none

end Resolution

namespace Registration

def checkApplicable (r : Registration) : Except GraphError Unit :=
  if r.calculation.appliesTo r.target then .ok ()
  else .error (.notApplicable r.calculation.name r.target)

def results (r : Registration) : List Specification := r.calculation.results r.target

def requirements (r : Registration) : List Requirement := r.calculation.requirements r.target

end Registration

namespace Blueprint

def outputs (b : Blueprint) : List Specification := b.registrations.flatMap (·.results)

def resolve (b : Blueprint) (r : Requirement) : Resolution :=
  match b.outputs.find? r.satisfiedBy with
  | some s => .produced s
  | none =>
    match b.liveData.find? fun d => r.satisfiedBy d.resolve with
    | some d => .live d
    | none => .dangling r

def inputsOf (b : Blueprint) (r : Registration) : List Specification :=
  r.requirements.map fun q => (b.resolve q).input

def liveOf (b : Blueprint) (r : Registration) : List Requirement :=
  r.requirements.filterMap fun q => (b.resolve q).live?

/-- The id of a node is the position of its registration. -/
def nodes (b : Blueprint) : List Node :=
  b.registrations.zipIdx.map fun (r, i) => .make ⟨i⟩ r.target r.calculation (b.inputsOf r) r.results

def targets (b : Blueprint) : List Target := distinct (b.registrations.map (·.target))

def graphFor (b : Blueprint) (nodes : List Node) (t : Target) : Except GraphError Graph :=
  Graph.ofNodes t (nodes.filter (·.target == t))
    ((b.registrations.filter (·.target == t)).flatMap b.liveOf)

def build (b : Blueprint) : Except GraphError Model := do
  b.registrations.forM Registration.checkApplicable
  let nodes := b.nodes
  let graphs ← b.targets.mapM (b.graphFor nodes)
  Model.ofGraphs graphs

end Blueprint

end CalcCycle
