import CalcCycle.Json.Basic
import CalcCycle.Number.Shortest
import CalcCycle.Text.Hex

/-! The compact JSON text of a value: no blanks, members in the order of the list, quotes, backslashes
and control characters escaped and all other characters as they are. -/

namespace CalcCycle.Json

def escape (c : Char) : List Char :=
  match c with
  | '"' => ['\\', '"']
  | '\\' => ['\\', '\\']
  | '\n' => ['\\', 'n']
  | '\r' => ['\\', 'r']
  | '\t' => ['\\', 't']
  | c =>
    if c.toNat = 8 then ['\\', 'b']
    else if c.toNat = 12 then ['\\', 'f']
    else if c.toNat < 32 then '\\' :: 'u' :: Hex.fixed 4 c.toNat
    else [c]

def quote (s : String) : List Char := '"' :: (s.toList.flatMap escape ++ ['"'])

def integerText (i : Int) : List Char :=
  if i < 0 then '-' :: Nat.toDigits 10 i.natAbs else Nat.toDigits 10 i.natAbs

/-- Digits with a point after the first `whole` of them, padded with zeros on either side so that a
digit stands before and after the point. -/
def pointed (digits : List Char) (whole : Int) : List Char :=
  if whole ≤ 0 then '0' :: '.' :: (List.replicate (-whole).toNat '0' ++ digits)
  else
    let n := whole.toNat
    let front := digits.take n ++ List.replicate (n - digits.length) '0'
    let back := digits.drop n
    front ++ '.' :: (if back.isEmpty then ['0'] else back)

/-- Positional notation while the first digit stands at 10 ^ -5 to 10 ^ 15, else an exponent with a
sign. -/
def magnitudeText (d : DecimalDigits) : List Char :=
  let digits := Nat.toDigits 10 d.digits
  let first : Int := d.exponent + digits.length - 1
  if d.digits = 0 then ['0', '.', '0']
  else if -5 ≤ first ∧ first < 16 then pointed digits (first + 1)
  else
    let mantissa := match digits with
      | [] => []
      | [c] => [c]
      | c :: rest => c :: '.' :: rest
    let sign := if first < 0 then '-' else '+'
    mantissa ++ 'e' :: sign :: Nat.toDigits 10 first.natAbs

/-- A double without a value (infinite or undefined) is written as `null`. -/
def doubleText (x : Float) : List Char :=
  if x.isNaN || x.isInf then ['n', 'u', 'l', 'l']
  else
    let negative := (DoubleParts.ofFloat x).negative
    let body := magnitudeText (shortestDigits .toEven x)
    if negative then '-' :: body else body

def numberText : JsonNumber → List Char
  | .integer i => integerText i
  | .double x => doubleText x

mutual
def chars : Json → List Char
  | null => ['n', 'u', 'l', 'l']
  | bool true => ['t', 'r', 'u', 'e']
  | bool false => ['f', 'a', 'l', 's', 'e']
  | number n => numberText n
  | string s => quote s
  | array [] => ['[', ']']
  | array (v :: rest) => '[' :: (chars v ++ itemsTail rest)
  | object [] => ['{', '}']
  | object ((k, v) :: rest) => '{' :: (quote k ++ ':' :: (chars v ++ membersTail rest))

def itemsTail : List Json → List Char
  | [] => [']']
  | v :: rest => ',' :: (chars v ++ itemsTail rest)

def membersTail : List (String × Json) → List Char
  | [] => ['}']
  | (k, v) :: rest => ',' :: (quote k ++ ':' :: (chars v ++ membersTail rest))
end

def render (v : Json) : String := String.ofList v.chars

/-! ### ASCII alone -/

def unitEscape (n : Nat) : List Char := '\\' :: 'u' :: Hex.fixed 4 n

/-- A character beyond ASCII as one UTF-16 unit, or as two from U+10000 on. -/
def asciiEscape (c : Char) : List Char :=
  let n := c.toNat
  if n < 128 then [c]
  else if n < 0x10000 then unitEscape n
  else unitEscape (0xD800 + (n - 0x10000) / 0x400) ++ unitEscape (0xDC00 + (n - 0x10000) % 0x400)

/-- The same value in ASCII. -/
def renderAscii (v : Json) : String := String.ofList (v.chars.flatMap asciiEscape)

end CalcCycle.Json
