import CalcCycle.Json.Basic
import CalcCycle.Json.Document
import CalcCycle.Number.Power

/-! What a written number means. A whole number that fits 64 bits is an integer. Any other number is
a double: as many leading digits as fit 64 bits, times a power of ten, where the product or quotient
of the two doubles is rounded once more. -/

namespace CalcCycle.Numeral

def digitValue (c : Char) : Nat := c.toNat - '0'.toNat

/-- The digits kept so far, and the power of ten that the digits not kept stand for. -/
structure Significand where
  digits : Nat
  exponent : Int
  full : Bool
  deriving DecidableEq

def Significand.start : Significand := ⟨0, 0, false⟩

def limit : Nat := pow2 64

def pushWhole (s : Significand) (c : Char) : Significand :=
  let next := s.digits * 10 + digitValue c
  if s.full || next ≥ limit then { s with exponent := s.exponent + 1, full := true }
  else { s with digits := next }

def pushFraction (s : Significand) (c : Char) : Significand :=
  let next := s.digits * 10 + digitValue c
  if s.full || next ≥ limit then { s with full := true }
  else { s with digits := next, exponent := s.exponent - 1 }

/-- A fraction may still fill up what the whole part left. -/
def significand (n : Numeral) : Significand :=
  let whole := n.whole.foldl pushWhole .start
  n.fraction.foldl pushFraction { whole with full := false }

def powerOfTen (n : Nat) : Float := Float.ofScientific 1 false n

/-- `f · 10 ^ exponent`; `none` if that is too large. -/
def scale : Nat → Float → Int → Option Float
  | 0, f, _ => some f
  | fuel + 1, f, exponent =>
    if exponent.natAbs ≤ 308 then
      if exponent ≥ 0 then
        let r := f * powerOfTen exponent.toNat
        if r.isInf then none else some r
      else some (f / powerOfTen exponent.natAbs)
    else if f == 0 then some f
    else if exponent ≥ 0 then none
    else scale fuel (f / powerOfTen 308) (exponent + 308)

def signed (negative : Bool) (f : Float) : Float := if negative then -f else f

def naturalOf (digits : List Char) : Nat := digits.foldl (fun n c => n * 10 + digitValue c) 0

/-- After three divisions by 10 ^ 308 every 64-bit integer is zero. -/
def toDouble? (n : Numeral) : Option Float :=
  let s := n.significand
  let f := (UInt64.ofNat s.digits).toFloat
  match n.exponent with
  | none => (scale 4 f s.exponent).map (signed n.negative)
  | some (negative, digits) =>
    let e := naturalOf digits
    if e ≥ pow2 31 then
      if s.digits ≠ 0 ∧ ¬ negative then none else some (signed n.negative 0)
    else
      let shift : Int := if negative then -e else e
      (scale 4 f (s.exponent + shift)).map (signed n.negative)

def isWhole (n : Numeral) : Bool := n.fraction.isEmpty && n.exponent.isNone

/-- `none` if the number is too large for a double. A negative zero is a double. -/
def value? (n : Numeral) : Option JsonNumber :=
  let m := naturalOf n.whole
  if n.isWhole ∧ ¬ n.negative ∧ m < pow2 64 then some (.integer m)
  else if n.isWhole ∧ n.negative ∧ m ≠ 0 ∧ m ≤ pow2 63 then some (.integer (-m))
  else n.toDouble?.map .double

end CalcCycle.Numeral
