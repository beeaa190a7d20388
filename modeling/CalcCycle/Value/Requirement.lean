import CalcCycle.Value.Target
import CalcCycle.Value.Constraints

/-! Values are asked for by a requirement, which may leave properties open, and identified by a
specification, which names every property. A requirement resolves to the specification with the
least acceptable value of each constrained property. -/

namespace CalcCycle

structure Specification where
  name : String
  target : Target
  properties : Properties := .empty
  deriving DecidableEq, Inhabited

structure Requirement where
  name : String
  target : Target
  constraints : Constraints := .empty
  deriving DecidableEq, Inhabited

namespace Specification

def key (s : Specification) : String × Target × Properties := (s.name, s.target, s.properties)

theorem key_injective {a b : Specification} (h : a.key = b.key) : a = b := by
  cases a; cases b; simp_all [key]

section
local instance tailOrd : Ord (Target × Properties) := lexOrd
local instance keyOrd : Ord (String × Target × Properties) := lexOrd

/-- By name, then by target, then by properties. -/
instance : Ord Specification := ⟨compareOn key⟩

instance : Std.TransOrd Specification := inferInstanceAs (Std.TransCmp (compareOn key))

instance : Std.LawfulEqOrd Specification := lawfulEqCmp_compareOn key_injective

end

def setProperty (s : Specification) (name value : String) : Specification :=
  { s with properties := s.properties.insert name value }

def text (s : Specification) : String :=
  let shown := s.properties.entries.map fun (k, v) => k ++ "=" ++ v
  let suffix := if shown.isEmpty then "" else "[" ++ ",".intercalate shown ++ "]"
  s.name ++ "(" ++ s.target.text ++ ")" ++ suffix

end Specification

namespace Requirement

def key (r : Requirement) : String × Target × Constraints := (r.name, r.target, r.constraints)

theorem key_injective {a b : Requirement} (h : a.key = b.key) : a = b := by
  cases a; cases b; simp_all [key]

section
local instance tailOrd : Ord (Target × Constraints) := lexOrd
local instance keyOrd : Ord (String × Target × Constraints) := lexOrd

/-- By name, then by target, then by constraints. -/
instance : Ord Requirement := ⟨compareOn key⟩

instance : Std.TransOrd Requirement := inferInstanceAs (Std.TransCmp (compareOn key))

instance : Std.LawfulEqOrd Requirement := lawfulEqCmp_compareOn key_injective

end

def satisfiedBy (r : Requirement) (s : Specification) : Bool :=
  r.name == s.name && r.target == s.target && Constraints.satisfiedBy r.constraints s.properties

def resolve (r : Requirement) : Specification where
  name := r.name
  target := r.target
  properties := Constraints.resolve r.constraints

def text (r : Requirement) : String :=
  let shown := r.constraints.entries.map fun (k, vs) => k ++ "=" ++ "|".intercalate vs.elements
  let suffix := if shown.isEmpty then "" else "\x7b" ++ ",".intercalate shown ++ "\x7d"
  r.name ++ "(" ++ r.target.text ++ ")" ++ suffix

end Requirement

end CalcCycle
