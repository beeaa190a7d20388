/-! Hexadecimal digits: written in lower case, read in either. -/

namespace CalcCycle.Hex

def digit (n : Nat) : Char :=
  if n < 10 then Char.ofNat ('0'.toNat + n) else Char.ofNat ('a'.toNat + (n - 10))

def value? (c : Char) : Option Nat :=
  if '0' ≤ c ∧ c ≤ '9' then some (c.toNat - '0'.toNat)
  else if 'a' ≤ c ∧ c ≤ 'f' then some (c.toNat - 'a'.toNat + 10)
  else if 'A' ≤ c ∧ c ≤ 'F' then some (c.toNat - 'A'.toNat + 10)
  else none

/-- The last `width` digits of `n`. -/
def fixed : Nat → Nat → List Char
  | 0, _ => []
  | width + 1, n => fixed width (n / 16) ++ [digit (n % 16)]

/-- The digits of `n` without leading zeros. -/
def plain (n : Nat) : List Char := Nat.toDigits 16 n

def read? (cs : List Char) : Option Nat := cs.foldlM (fun n c => (value? c).map (n * 16 + ·)) 0

theorem value?_digit : ∀ n < 16, value? (digit n) = some n := by decide

end CalcCycle.Hex
