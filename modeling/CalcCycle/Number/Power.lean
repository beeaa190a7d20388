/-! Powers of two and of ten. -/

namespace CalcCycle

def pow2 (n : Nat) : Nat := Nat.pow 2 n

def pow10 (n : Nat) : Nat := Nat.pow 10 n

end CalcCycle
