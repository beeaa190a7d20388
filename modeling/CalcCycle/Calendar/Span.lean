import CalcCycle.Number.Power

/-! Lengths of time in whole seconds and nanoseconds. -/

namespace CalcCycle

structure Span where
  seconds : Nat := 0
  nanos : Nat := 0
  deriving DecidableEq, Inhabited

/-- Nanoseconds from 10 ^ 9 on carry into the seconds, which must stay below 2 ^ 64. -/
def Span.carry (seconds nanos : Nat) : Option Span :=
  let total := seconds + nanos / 1000000000
  if total < pow2 64 then some ⟨total, nanos % 1000000000⟩ else none

end CalcCycle
