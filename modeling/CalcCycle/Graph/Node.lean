import CalcCycle.Calculation.Basic

/-! A node of a graph: a calculation for a target, with the specifications it reads and those it may
write. -/

namespace CalcCycle

structure NodeId where
  index : Nat
  deriving DecidableEq, Repr, Inhabited

namespace NodeId

instance : Ord NodeId := ⟨compareOn index⟩

instance : Std.TransOrd NodeId := inferInstanceAs (Std.TransCmp (compareOn index))

theorem index_injective {a b : NodeId} (h : a.index = b.index) : a = b := by
  cases a; cases b; simp_all

instance : Std.LawfulEqOrd NodeId := lawfulEqCmp_compareOn index_injective

def text (n : NodeId) : String := "node#" ++ toString n.index

end NodeId

section Distinct
variable {α : Type} [DecidableEq α]

def distinctFrom (seen : List α) : List α → List α
  | [] => []
  | a :: rest => if a ∈ seen then distinctFrom seen rest else a :: distinctFrom (a :: seen) rest

/-- Each element once, where it first occurs. -/
def distinct (l : List α) : List α := distinctFrom [] l

theorem mem_distinctFrom {seen l : List α} {a : α} :
    a ∈ distinctFrom seen l ↔ a ∈ l ∧ a ∉ seen := by
  induction l generalizing seen with
  | nil => simp [distinctFrom]
  | cons b rest ih =>
    rw [distinctFrom]
    split
    · next hb =>
      rw [ih, List.mem_cons]
      exact ⟨fun h => ⟨.inr h.1, h.2⟩, fun h => ⟨h.1.resolve_left (fun e => h.2 (e ▸ hb)), h.2⟩⟩
    · next hb =>
      rw [List.mem_cons, List.mem_cons, ih, List.mem_cons]
      by_cases h : a = b <;> simp_all

theorem nodup_distinctFrom (seen l : List α) : (distinctFrom seen l).Nodup := by
  induction l generalizing seen with
  | nil => simp [distinctFrom]
  | cons b rest ih =>
    rw [distinctFrom]
    split
    · exact ih _
    · exact List.nodup_cons.2 ⟨fun h => (mem_distinctFrom.1 h).2 List.mem_cons_self, ih _⟩

theorem mem_distinct {l : List α} {a : α} : a ∈ distinct l ↔ a ∈ l := by
  simp [distinct, mem_distinctFrom]

theorem nodup_distinct (l : List α) : (distinct l).Nodup := nodup_distinctFrom [] l

end Distinct

structure Node where
  id : NodeId
  target : Target
  calculation : Calculation
  inputs : List Specification
  outputs : List Specification
  outputs_nodup : outputs.Nodup

namespace Node

/-- A node; an output that is declared again is dropped. -/
def make (id : NodeId) (target : Target) (calculation : Calculation)
    (inputs outputs : List Specification) : Node :=
  { id, target, calculation, inputs, outputs := distinct outputs, outputs_nodup := nodup_distinct _ }

def produces (n : Node) (s : Specification) : Bool := n.outputs.contains s

def text (n : Node) : String := n.id.text ++ "[" ++ n.calculation.name ++ " on " ++ n.target.text ++ "]"

end Node

end CalcCycle
