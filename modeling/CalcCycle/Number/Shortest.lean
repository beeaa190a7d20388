import CalcCycle.Number.Power

/-! The shortest decimal digits of a double: the fewest digits whose value rounds back to it, and of
the candidates with that many digits the nearest. -/

namespace CalcCycle

/-- The finite doubles in sign, integer mantissa and binary exponent. -/
structure DoubleParts where
  negative : Bool
  mantissa : Nat
  exponent : Int
  deriving DecidableEq

def DoubleParts.ofFloat (x : Float) : DoubleParts :=
  let bits := x.toBits.toNat
  let biased : Nat := bits / pow2 52 % pow2 11
  let fraction := bits % pow2 52
  { negative := bits / pow2 63 = 1
    mantissa := if biased = 0 then fraction else pow2 52 + fraction
    exponent := if biased = 0 then -1074 else (biased : Int) - 1075 }

/-- `digits · 10 ^ exponent`, without trailing zeros in `digits` unless it is zero. -/
structure DecimalDigits where
  digits : Nat
  exponent : Int
  deriving DecidableEq

inductive HalfRule
  | toEven
  | up
  deriving DecidableEq

namespace Shortest

/-- The value and the ends of the interval that rounds to it, over one denominator. -/
structure Interval where
  lower : Nat
  value : Nat
  upper : Nat
  denominator : Nat
  closed : Bool

def interval (mantissa : Nat) (exponent : Int) : Interval :=
  let scale := pow2 exponent.toNat
  let below := if mantissa = pow2 52 ∧ exponent > -1074 then 1 else 2
  { lower := (4 * mantissa - below) * scale
    value := 4 * mantissa * scale
    upper := (4 * mantissa + 2) * scale
    denominator := 4 * pow2 (-exponent).toNat
    closed := mantissa % 2 = 0 }

/-- The decimal exponent of the first digit. -/
def magnitude (i : Interval) : Int :=
  (Nat.repr (i.value * pow10 400 / i.denominator)).length - 401

/-- The best multiple of `10 ^ k` inside the interval, as that multiple, if there is one. -/
def onGrid? (rule : HalfRule) (i : Interval) (k : Int) : Option Nat :=
  let step := i.denominator * pow10 k.toNat
  let scale := pow10 (-k).toNat
  let inside (c : Nat) : Bool :=
    if i.closed then i.lower * scale ≤ c * step ∧ c * step ≤ i.upper * scale
    else i.lower * scale < c * step ∧ c * step < i.upper * scale
  let down := i.value * scale / step
  let rest := i.value * scale % step
  let upNearer : Bool := match rule with
    | .toEven => 2 * rest > step ∨ (2 * rest = step ∧ down % 2 = 1)
    | .up => 2 * rest ≥ step
  match inside down, inside (down + 1) with
  | true, true => some (if upNearer then down + 1 else down)
  | true, false => some down
  | false, true => some (down + 1)
  | false, false => none

def stripZeros : Nat → DecimalDigits → DecimalDigits
  | 0, d => d
  | fuel + 1, d =>
    if d.digits ≠ 0 ∧ d.digits % 10 = 0 then stripZeros fuel ⟨d.digits / 10, d.exponent + 1⟩ else d

/-- Seventeen digits always suffice. -/
def digits (rule : HalfRule) (mantissa : Nat) (exponent : Int) : DecimalDigits :=
  if mantissa = 0 then ⟨0, 0⟩
  else
    let i := interval mantissa exponent
    let top := magnitude i
    let found := (List.range 17).findSome? fun (n : Nat) =>
      (onGrid? rule i (top - n)).map fun c => stripZeros 17 ⟨c, top - n⟩
    found.getD ⟨mantissa, exponent⟩

end Shortest

/-- The digits of the absolute value. -/
def shortestDigits (rule : HalfRule) (x : Float) : DecimalDigits :=
  let p := DoubleParts.ofFloat x
  Shortest.digits rule p.mantissa p.exponent

end CalcCycle
