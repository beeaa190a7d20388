import CalcCycle.Number.Power
import CalcCycle.Number.Shortest

/-! Decimals of 96 bits that keep their scale: `1.50` has the mantissa 150 and the scale 2. -/

namespace CalcCycle

structure Decimal where
  negative : Bool
  mantissa : Nat
  scale : Nat
  deriving DecidableEq, Inhabited

namespace Decimal

def limit : Nat := pow2 96

def maxScale : Nat := 28

/-- Zero has no sign. -/
def make (negative : Bool) (mantissa scale : Nat) : Decimal :=
  ⟨negative && mantissa != 0, mantissa, scale⟩

def ofInt (i : Int) : Decimal := make (i < 0) i.natAbs 0

/-- Equality of the values, whatever the scales and the sign of zero. -/
def same (a b : Decimal) : Bool :=
  (a.negative == b.negative || a.mantissa == 0) &&
    a.mantissa * pow10 (maxScale - a.scale) == b.mantissa * pow10 (maxScale - b.scale)

def text (d : Decimal) : String :=
  let digits := Nat.toDigits 10 d.mantissa
  let padded := List.replicate (d.scale + 1 - digits.length) '0' ++ digits
  let cut := padded.length - d.scale
  let body := if d.scale = 0 then padded else padded.take cut ++ '.' :: padded.drop cut
  String.ofList (if d.negative then '-' :: body else body)

/-! ### Reading -/

def digit? (c : Char) : Option Nat :=
  if '0' ≤ c ∧ c ≤ '9' then some (c.toNat - '0'.toNat) else none

/-- Ends the number at a character it has no room for: a digit from 5 on rounds up, an underscore
counts as 0. Digits and underscores may follow and change nothing. -/
def roundAt (negative : Bool) (mantissa scale : Nat) (c : Char) (rest : List Char) :
    Option Decimal := do
  let d ← if c = '_' then some 0 else digit? c
  if ¬ rest.all (fun c => c == '_' || (digit? c).isSome) then none
  else if d < 5 then pure (make negative mantissa scale)
  else if mantissa + 1 < limit then pure (make negative (mantissa + 1) scale)
  else if scale = 0 then none
  else pure (make negative ((mantissa + 5) / 10) (scale - 1))

structure Partial where
  mantissa : Nat := 0
  scale : Nat := 0
  point : Bool := false
  started : Bool := false

/-- All places are taken. -/
def Partial.full (p : Partial) : Bool := p.point && maxScale ≤ p.scale

/-- Every digit but the last came while a further digit was sure to fit 64 bits. -/
def Partial.short (p : Partial) : Bool := p.mantissa / 10 < pow2 64 / 10 - 255

def Partial.push (p : Partial) (digit : Nat) : Partial :=
  { p with
    mantissa := p.mantissa * 10 + digit
    scale := if p.point then p.scale + 1 else 0
    started := true }

/-- Digits with at most one point; underscores may follow the first digit. After the last place a
short number ends at an underscore, and a longer one passes over it. -/
def readDigits (negative : Bool) : Partial → List Char → Option Decimal
  | p, [] => if p.started then some (make negative p.mantissa p.scale) else none
  | p, c :: rest =>
    if p.full then
      if c = '_' ∧ ¬ p.short then readDigits negative p rest
      else roundAt negative p.mantissa p.scale c rest
    else
      match digit? c with
      | some d =>
        let next := p.push d
        if next.mantissa < limit then readDigits negative next rest
        else if p.point then roundAt negative p.mantissa p.scale c rest
        else none
      | none =>
        if c = '.' ∧ ¬ p.point then readDigits negative { p with point := true } rest
        else if c = '_' ∧ p.started then readDigits negative p rest
        else none

def readPlain : List Char → Option Decimal
  | '-' :: rest => readDigits true {} rest
  | '+' :: rest => readDigits false {} rest
  | cs => readDigits false {} cs

/-- Divides by a power of ten. Places beyond the last are rounded off, a half away from zero, and a
number that vanishes keeps its sign. -/
def shiftDown (d : Decimal) (places : Nat) : Decimal :=
  let scale := d.scale + places
  if scale ≤ maxScale then { d with scale }
  else
    let unit := pow10 (scale - maxScale)
    { d with mantissa := (2 * d.mantissa + unit) / (2 * unit), scale := maxScale }

/-- Multiplies by a power of ten. -/
def shiftUp (d : Decimal) (places : Nat) : Option Decimal :=
  if places ≤ d.scale then some { d with scale := d.scale - places }
  else
    let mantissa := d.mantissa * pow10 (places - d.scale)
    if mantissa < limit then some { d with mantissa, scale := 0 } else none

/-- A count below 2 ^ 32; it may carry a plus sign. -/
def count? (cs : List Char) : Option Nat := do
  let cs := match cs with
    | '+' :: rest => rest
    | cs => cs
  if cs.isEmpty then none
  else
    let n ← cs.foldlM (fun n c => do pure (n * 10 + (← digit? c))) 0
    if n < pow2 32 then pure n else none

/-- A plain number, `e` or `E`, and an exponent of at most 28 in size. -/
def readScientific (cs : List Char) : Option Decimal := do
  let isMark := fun c => c == 'e' || c == 'E'
  let base ← readPlain (cs.takeWhile (!isMark ·))
  let (down, exponent) ← match cs.dropWhile (!isMark ·) with
    | [] => none
    | _ :: '-' :: exponent => some (true, exponent)
    | _ :: exponent => some (false, exponent)
  let places ← count? exponent
  if maxScale < places then none
  else if down then pure (base.shiftDown places)
  else base.shiftUp places

def parse (s : String) : Option Decimal := readPlain s.toList <|> readScientific s.toList

/-! ### Doubles -/

/-- All digits of a double, without an exponent. -/
def plainDouble (x : Float) : List Char :=
  let d := shortestDigits .up x
  let digits := Nat.toDigits 10 d.digits
  let body :=
    if d.exponent ≥ 0 then digits ++ List.replicate d.exponent.toNat '0'
    else
      let places := d.exponent.natAbs
      let padded := List.replicate (places + 1 - digits.length) '0' ++ digits
      padded.take (padded.length - places) ++ '.' :: padded.drop (padded.length - places)
  if (DoubleParts.ofFloat x).negative then '-' :: body else body

/-- The decimal that the shortest digits of a double spell. -/
def ofDouble (x : Float) : Option Decimal :=
  if x.isNaN || x.isInf then none else readPlain (plainDouble x)

def power (base : Float) : Nat → Nat → Float → Float
  | 0, _, acc => acc
  | fuel + 1, n, acc =>
    let acc := if n % 2 = 1 then acc * base else acc
    if n / 2 = 0 then acc else power (base * base) fuel (n / 2) acc

/-- The whole part plus the fraction, rounded to the scale. -/
def toDouble (d : Decimal) : Float :=
  let precision := pow10 d.scale
  let whole := Float.ofNat (d.mantissa / precision)
  let fraction := d.mantissa % precision
  let magnitude :=
    if fraction = 0 then whole
    else
      let value := whole + Float.ofNat fraction / Float.ofNat precision
      let shift := power 10 6 d.scale 1
      (value * shift).round / shift
  if d.negative then -magnitude else magnitude

end Decimal

end CalcCycle
