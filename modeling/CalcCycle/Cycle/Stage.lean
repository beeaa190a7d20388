/-! The stages of the life of a cycle, in the order in which it passes them. -/

namespace CalcCycle

inductive Stage
  | created
  | inputsPrepared
  | executing
  | resultsPopulated
  | released
  deriving DecidableEq, Repr, Inhabited

def Stage.all : List Stage := [created, inputsPrepared, executing, resultsPopulated, released]

def Stage.rank : Stage → Nat
  | created => 0
  | inputsPrepared => 1
  | executing => 2
  | resultsPopulated => 3
  | released => 4

def Stage.text : Stage → String
  | created => "created"
  | inputsPrepared => "inputs prepared"
  | executing => "executing"
  | resultsPopulated => "results populated"
  | released => "released"

inductive Operation
  | prepareInputs
  | executePlans
  | populateResults
  | releaseResources
  deriving DecidableEq, Repr, Inhabited

def Operation.text : Operation → String
  | prepareInputs => "prepare inputs"
  | executePlans => "execute plans"
  | populateResults => "populate result model"
  | releaseResources => "release resources"

/-- The stages in which an operation may be called. -/
def Operation.allowed : Operation → List Stage
  | prepareInputs => [.created]
  | executePlans => [.inputsPrepared]
  | populateResults => [.executing, .resultsPopulated]
  | releaseResources => [.created, .inputsPrepared, .executing, .resultsPopulated]

end CalcCycle
