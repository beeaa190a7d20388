import CalcCycle.Sorted.Key

/-! What a value is computed for: a primitive (a currency, say), a security, a position or an
aggregate of positions. -/

namespace CalcCycle

inductive TargetKind
  | primitive
  | security
  | position
  | multiplePositions
  deriving DecidableEq, Repr, Inhabited

namespace TargetKind

def rank : TargetKind → Nat
  | primitive => 0
  | security => 1
  | position => 2
  | multiplePositions => 3

theorem rank_injective {a b : TargetKind} (h : a.rank = b.rank) : a = b := by
  cases a <;> cases b <;> simp_all [rank]

instance : Ord TargetKind := ⟨compareOn rank⟩

instance : Std.TransOrd TargetKind := inferInstanceAs (Std.TransCmp (compareOn rank))

instance : Std.LawfulEqOrd TargetKind := lawfulEqCmp_compareOn rank_injective

/-- The order in which a cycle works through the kinds of target. -/
def executionOrder : List TargetKind := [primitive, security, position, multiplePositions]

/-- The kinds whose values are reported in the results of a cycle. -/
def reportable : List TargetKind := [position, multiplePositions]

def isReportable (k : TargetKind) : Bool := reportable.contains k

theorem mem_executionOrder (k : TargetKind) : k ∈ executionOrder := by cases k <;> decide

def text : TargetKind → String
  | primitive => "PRIMITIVE"
  | security => "SECURITY"
  | position => "POSITION"
  | multiplePositions => "MULTIPLE_POSITIONS"

end TargetKind

structure Target where
  kind : TargetKind
  id : String
  deriving DecidableEq, Repr, Inhabited

namespace Target

def primitive (id : String) : Target := ⟨.primitive, id⟩

def security (id : String) : Target := ⟨.security, id⟩

def position (id : String) : Target := ⟨.position, id⟩

def aggregate (id : String) : Target := ⟨.multiplePositions, id⟩

def key (t : Target) : TargetKind × String := (t.kind, t.id)

theorem key_injective {a b : Target} (h : a.key = b.key) : a = b := by
  cases a; cases b; simp_all [key]

section
local instance keyOrd : Ord (TargetKind × String) := lexOrd

/-- By kind, then by identifier. -/
instance : Ord Target := ⟨compareOn key⟩

instance : Std.TransOrd Target := inferInstanceAs (Std.TransCmp (compareOn key))

instance : Std.LawfulEqOrd Target := lawfulEqCmp_compareOn key_injective

end

def text (t : Target) : String := t.kind.text ++ ":" ++ t.id

end Target

end CalcCycle
