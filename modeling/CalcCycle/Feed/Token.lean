import CalcCycle.Json.Decode

/-! Tokens name the snapshots of a feed. -/

namespace CalcCycle

structure Token where
  value : Int
  deriving DecidableEq, Repr, Inhabited

namespace Token

instance : Ord Token := ⟨compareOn value⟩

instance : Std.TransOrd Token := inferInstanceAs (Std.TransCmp (compareOn value))

theorem value_injective {a b : Token} (h : a.value = b.value) : a = b := by
  cases a; cases b; simp_all

instance : Std.LawfulEqOrd Token := lawfulEqCmp_compareOn value_injective

def text (t : Token) : String := "snapshot:" ++ toString t.value

def toJson (t : Token) : Json := .number (.integer t.value)

def reader : Reader Token := fun l d => (Reader.signed64 l d).map Token.mk

end Token

end CalcCycle
