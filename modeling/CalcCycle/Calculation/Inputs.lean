import CalcCycle.Value.Payload

/-! The values a calculation is given, at most one for each specification, and the ways in which a
calculation can fail. -/

namespace CalcCycle

inductive Fault
  | missingInput (specification : Specification)
  | unexpectedPayload (specification : Specification) (expected : String)
  | calculation (reason : String)
  | invalidOutput (reason : String)
  | notExecutable (reason : String)
  deriving DecidableEq, Inhabited

def Fault.message : Fault → String
  | missingInput s => "missing input: " ++ s.text
  | unexpectedPayload s expected => "unexpected payload for " ++ s.text ++ ": expected " ++ expected
  | calculation reason => "calculation error: " ++ reason
  | invalidOutput reason => "invalid output: " ++ reason
  | notExecutable reason => "not executable: " ++ reason

/-- The name of the fault for programs. -/
def Fault.code : Fault → String
  | missingInput .. => "MissingInput"
  | unexpectedPayload .. => "UnexpectedPayload"
  | calculation .. => "Calculation"
  | invalidOutput .. => "InvalidOutput"
  | notExecutable .. => "NotExecutable"

abbrev Inputs := SortedMap Specification Payload

namespace Inputs

def add (i : Inputs) (v : Computed) : Inputs := i.insert v.specification v.payload

/-- Of several values for one specification the last counts. -/
def ofValues (vs : List Computed) : Inputs := vs.foldl add .empty

def require (i : Inputs) (s : Specification) : Except Fault Payload :=
  match i.get? s with
  | some p => .ok p
  | none => .error (.missingInput s)

def toValues (i : Inputs) : List Computed := i.entries.map fun (s, p) => ⟨s, p⟩

/-- All values that satisfy the requirement. -/
def satisfying (i : Inputs) (r : Requirement) : List Computed :=
  i.toValues.filter fun v => r.satisfiedBy v.specification

def named (i : Inputs) (name : String) : List Computed :=
  i.toValues.filter fun v => v.specification.name == name

end Inputs

end CalcCycle
