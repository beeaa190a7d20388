import CalcCycle.Calendar.Date
import CalcCycle.Number.Power
import CalcCycle.Text.Blank

/-! Points in time in UTC with nanoseconds, and their RFC 3339 text. Reading is lenient about blanks
and the width of the numbers; writing has one form. -/

namespace CalcCycle

/-- In a leap second `nanos` goes on from 10 ^ 9, while `seconds` stands still. -/
structure Timestamp where
  seconds : Int
  nanos : Nat
  deriving DecidableEq, Inhabited

namespace Timestamp

def ofMillis (n : Int) : Timestamp := ⟨n / 1000, (n % 1000).toNat * 1000000⟩

/-- Milliseconds since 1970, rounded down. -/
def millis (t : Timestamp) : Int := t.seconds * 1000 + t.nanos / 1000000

/-! ### Writing -/

def padded (width n : Nat) : List Char :=
  let digits := Nat.toDigits 10 n
  List.replicate (width - digits.length) '0' ++ digits

/-- Years outside 0 to 9999 carry a sign. -/
def yearText (y : Int) : List Char :=
  if 0 ≤ y ∧ y ≤ 9999 then padded 4 y.toNat
  else (if y < 0 then '-' else '+') :: padded 4 y.natAbs

/-- No fraction, or 3, 6 or 9 digits of it: the fewest that lose nothing. -/
def fractionText (nanos : Nat) : List Char :=
  if nanos = 0 then []
  else if nanos % 1000000 = 0 then '.' :: padded 3 (nanos / 1000000)
  else if nanos % 1000 = 0 then '.' :: padded 6 (nanos / 1000)
  else '.' :: padded 9 nanos

def text (t : Timestamp) : String :=
  let date := Date.ofDayNumber (t.seconds / 86400)
  let second := (t.seconds % 86400).toNat
  let leap := t.nanos / 1000000000
  String.ofList (
    yearText date.year ++ '-' :: padded 2 date.month ++ '-' :: padded 2 date.day ++
    'T' :: padded 2 (second / 3600) ++ ':' :: padded 2 (second / 60 % 60) ++
    ':' :: padded 2 (second % 60 + leap) ++ fractionText (t.nanos % 1000000000) ++ ['Z'])

/-! ### Reading -/

def isDigit (c : Char) : Bool := '0' ≤ c && c ≤ '9'

def naturalOf (digits : List Char) : Nat :=
  digits.foldl (fun n c => n * 10 + (c.toNat - '0'.toNat)) 0

/-- At least one digit and at most `width`. -/
def number (width : Nat) (cs : List Char) : Option (Nat × List Char) :=
  let digits := (cs.takeWhile isDigit).take width
  if digits.isEmpty then none else some (naturalOf digits, cs.drop digits.length)

/-- A number after blanks. -/
def field (width : Nat) (cs : List Char) : Option (Nat × List Char) := number width (dropBlanks cs)

/-- A year with a sign may have any number of digits. -/
def yearField (cs : List Char) : Option (Int × List Char) :=
  let cs := dropBlanks cs
  match cs with
  | '-' :: rest => (number rest.length rest).map fun (n, rest) => (-n, rest)
  | '+' :: rest => (number rest.length rest).map fun (n, rest) => ((n : Int), rest)
  | cs => (number 4 cs).map fun (n, rest) => ((n : Int), rest)

/-- A mark, with blanks allowed before it. -/
def mark (c : Char) (cs : List Char) : Option (List Char) :=
  match dropBlanks cs with
  | d :: rest => if c = d then some rest else none
  | [] => none

/-- Digits after the ninth are passed over. -/
def fraction : List Char → Option (Nat × List Char)
  | '.' :: rest =>
    let digits := rest.takeWhile isDigit
    if digits.isEmpty then none
    else
      let kept := digits.take 9
      some (naturalOf kept * pow10 (9 - kept.length), rest.drop digits.length)
  | cs => some (0, cs)

def twoDigits : List Char → Option (Nat × List Char)
  | a :: b :: rest => if isDigit a && isDigit b then some (naturalOf [a, b], rest) else none
  | _ => none

def isOffsetGap (c : Char) : Bool := c == ':' || isBlank c

/-- Seconds east of UTC. -/
def offset (cs : List Char) : Option (Int × List Char) :=
  let signedOffset := fun (negative : Bool) rest => do
    let (hours, rest) ← twoDigits rest
    let (minutes, rest) ← twoDigits (rest.dropWhile isOffsetGap)
    if minutes ≥ 60 then none
    else
      let seconds : Int := hours * 3600 + minutes * 60
      some (if negative then -seconds else seconds, rest)
  match dropBlanks cs with
  | 'Z' :: rest => some (0, rest)
  | 'z' :: rest => some (0, rest)
  | '+' :: rest => signedOffset false rest
  | '-' :: rest => signedOffset true rest
  | '\u2212' :: rest => signedOffset true rest
  | u :: t :: c :: rest =>
    if [u, t, c].map Char.toUpper = ['U', 'T', 'C'] then some (0, rest) else none
  | _ => none

def isSeparator (c : Char) : Bool := c == 'T' || c == 't' || c == ' '

/-- The years for which days are counted. -/
def yearInRange (y : Int) : Bool := -262143 ≤ y && y ≤ 262142

def parse (s : String) : Option Timestamp := do
  let (year, cs) ← yearField s.toList
  let (month, cs) ← field 2 (← mark '-' cs)
  let (day, cs) ← field 2 (← mark '-' cs)
  let cs ← match cs with
    | c :: rest => if isSeparator c then some rest else none
    | [] => none
  let (hour, cs) ← field 2 cs
  let (minute, cs) ← field 2 (← mark ':' cs)
  let (second, cs) ← field 2 (← mark ':' cs)
  let (nanos, cs) ← fraction cs
  let (east, cs) ← offset cs
  let date : Date := ⟨year, month, day⟩
  let wall : Int := date.dayNumber * 86400 + hour * 3600 + minute * 60 + min second 59
  let seconds := wall - east
  if (dropBlanks cs).isEmpty && date.isValid && hour < 24 && minute < 60 && second ≤ 60
      && east.natAbs < 86400 && yearInRange year
      && yearInRange (Date.ofDayNumber (seconds / 86400)).year then
    pure ⟨seconds, if second = 60 then nanos + 1000000000 else nanos⟩
  else none

end Timestamp

end CalcCycle
