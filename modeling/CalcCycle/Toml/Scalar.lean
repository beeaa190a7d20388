import CalcCycle.Calendar.Date
import CalcCycle.Number.Power
import CalcCycle.Text.Hex
import CalcCycle.Toml.Document

/-! The scalar values of TOML: strings, numbers, truth values, dates and times. -/

namespace CalcCycle.Toml

def isSpace (c : Char) : Bool := c == ' ' || c == '\t'

def skipSpaces (cs : List Char) : List Char := cs.dropWhile isSpace

/-- Characters that may stand in a comment or a string, quotes and escapes apart. -/
def isPrintable (c : Char) : Bool := c == '\t' || (' ' ≤ c && c ≤ '~') || c.toNat ≥ 0x80

def newline? : List Char → Option (List Char)
  | '\n' :: rest => some rest
  | '\r' :: '\n' :: rest => some rest
  | _ => none

def isDigit (c : Char) : Bool := '0' ≤ c && c ≤ '9'

/-! ### Strings -/

def character? (n : Nat) : Option Char :=
  if n < 0xD800 ∨ (0xE000 ≤ n ∧ n < 0x110000) then some (Char.ofNat n) else none

/-- A code point of exactly `width` digits. -/
def codePoint (width : Nat) (cs : List Char) : Option (Char × List Char) := do
  let digits := cs.take width
  if digits.length < width then none
  else
    let c ← character? (← Hex.read? digits)
    pure (c, cs.drop width)

/-- The character behind a backslash. -/
def escaped : List Char → Option (Char × List Char)
  | 'b' :: rest => some ('\x08', rest)
  | 't' :: rest => some ('\t', rest)
  | 'n' :: rest => some ('\n', rest)
  | 'f' :: rest => some ('\x0c', rest)
  | 'r' :: rest => some ('\r', rest)
  | '"' :: rest => some ('"', rest)
  | '\\' :: rest => some ('\\', rest)
  | 'u' :: rest => codePoint 4 rest
  | 'U' :: rest => codePoint 8 rest
  | _ => none

/-- A quoted string on one line; `quote` ends it. -/
def line (quote : Char) (escapes : Bool) : Nat → List Char → Option (List Char × List Char)
  | 0, _ => none
  | fuel + 1, cs =>
    match cs with
    | [] => none
    | c :: rest =>
      if c = quote then some ([], rest)
      else if escapes ∧ c = '\\' then do
        let (d, rest) ← escaped rest
        let (ds, rest) ← line quote escapes fuel rest
        pure (d :: ds, rest)
      else if isPrintable c then do
        let (ds, rest) ← line quote escapes fuel rest
        pure (c :: ds, rest)
      else none

/-- Blanks and line ends after a backslash at the end of a line. -/
def skipBlankLines : Nat → List Char → List Char
  | 0, cs => cs
  | fuel + 1, cs =>
    let cs := skipSpaces cs
    match newline? cs with
    | some rest => skipBlankLines fuel rest
    | none => cs

/-- A string over several lines. Three quotes end it, and up to two more in front of them belong to
it. -/
def block (quote : Char) (escapes : Bool) : Nat → List Char → Option (List Char × List Char)
  | 0, _ => none
  | fuel + 1, cs =>
    match cs with
    | [] => none
    | c :: rest =>
      if c = quote then
        let run := (cs.takeWhile (· == quote)).length
        if run < 3 then do
          let (ds, rest) ← block quote escapes fuel (cs.drop run)
          pure (List.replicate run quote ++ ds, rest)
        else some (List.replicate (min run 5 - 3) quote, cs.drop (min run 5))
      else if escapes ∧ c = '\\' then
        match newline? (skipSpaces rest) with
        | some after => block quote escapes fuel (skipBlankLines after.length after)
        | none => do
          let (d, rest) ← escaped rest
          let (ds, rest) ← block quote escapes fuel rest
          pure (d :: ds, rest)
      else
        match newline? cs with
        | some rest => do
          let (ds, rest) ← block quote escapes fuel rest
          pure ('\n' :: ds, rest)
        | none =>
          if isPrintable c then do
            let (ds, rest) ← block quote escapes fuel rest
            pure (c :: ds, rest)
          else none

/-- The rest of a block after its opening quotes; a line end there does not count. -/
def openBlock (quote : Char) (escapes : Bool) (cs : List Char) : Option (List Char × List Char) :=
  block quote escapes (cs.length + 1) ((newline? cs).getD cs)

def openLine (quote : Char) (escapes : Bool) (cs : List Char) : Option (List Char × List Char) :=
  line quote escapes (cs.length + 1) cs

def string : List Char → Option (List Char × List Char)
  | '"' :: '"' :: '"' :: rest => openBlock '"' true rest
  | '"' :: rest => openLine '"' true rest
  | '\'' :: '\'' :: '\'' :: rest => openBlock '\'' false rest
  | '\'' :: rest => openLine '\'' false rest
  | _ => none

/-! ### Numbers -/

/-- The digits that go on from a digit, each with an underscore in front of it or not. -/
def moreDigits (digit : Char → Bool) : List Char → List Char × List Char
  | '_' :: c :: rest =>
    if digit c then
      let (digits, rest) := moreDigits digit rest
      (c :: digits, rest)
    else ([], '_' :: c :: rest)
  | c :: rest =>
    if digit c then
      let (digits, rest) := moreDigits digit rest
      (c :: digits, rest)
    else ([], c :: rest)
  | [] => ([], [])

/-- Digits with single underscores between them. -/
def grouped (digit : Char → Bool) : List Char → Option (List Char × List Char)
  | c :: rest =>
    if digit c then
      let (digits, rest) := moreDigits digit rest
      some (c :: digits, rest)
    else none
  | [] => none

def sign : List Char → Bool × List Char
  | '-' :: rest => (true, rest)
  | '+' :: rest => (false, rest)
  | cs => (false, cs)

/-- Zero, or digits that do not begin with it. -/
def whole : List Char → Option (List Char × List Char)
  | '0' :: rest => some (['0'], rest)
  | cs => grouped isDigit cs

def naturalOf (base : Nat) (digits : List Char) : Nat :=
  digits.foldl (fun n c => n * base + (Hex.value? c).getD 0) 0

def radix (base : Nat) (cs : List Char) : Option (Value × List Char) := do
  let digit := fun c => (Hex.value? c).any (· < base)
  let (digits, rest) ← grouped digit cs
  let n := naturalOf base digits
  if n < pow2 63 then pure (.integer n, rest) else none

def decimalInteger (cs : List Char) : Option (Value × List Char) := do
  let (negative, rest) := sign cs
  let (digits, rest) ← whole rest
  let n : Int := naturalOf 10 digits
  if negative then
    if n ≤ pow2 63 then pure (.integer (-n), rest) else none
  else if n < pow2 63 then pure (.integer n, rest)
  else none

def integer : List Char → Option (Value × List Char)
  | '0' :: 'x' :: rest => radix 16 rest
  | '0' :: 'o' :: rest => radix 8 rest
  | '0' :: 'b' :: rest => radix 2 rest
  | cs => decimalInteger cs

/-- `digits · 10 ^ exponent` rounds to infinity: it is not below the largest double plus half a unit. -/
def overflows (digits : Nat) (exponent : Int) : Bool :=
  let size := (Nat.toDigits 10 digits).length + exponent
  if digits = 0 ∨ size < 300 then false
  else if size > 310 then true
  else digits * pow10 exponent.toNat ≥ (pow2 1024 - pow2 970) * pow10 (-exponent).toNat

def exponentPart : List Char → Option (Int × List Char)
  | c :: rest =>
    if c = 'e' ∨ c = 'E' then do
      let (negative, rest) := sign rest
      let (digits, rest) ← grouped isDigit rest
      let n : Int := naturalOf 10 digits
      pure (if negative then -n else n, rest)
    else none
  | [] => none

/-- A whole part followed by a fraction, an exponent or both. -/
def decimalFloat (cs : List Char) : Option (Value × List Char) := do
  let (negative, rest) := sign cs
  let (front, rest) ← whole rest
  let (fraction, exponent, rest) ← match rest with
    | '.' :: rest => do
      let (fraction, rest) ← grouped isDigit rest
      match exponentPart rest with
      | some (e, rest) => some (fraction, e, rest)
      | none => some (fraction, 0, rest)
    | rest => do
      let (e, rest) ← exponentPart rest
      some ([], e, rest)
  let digits := naturalOf 10 (front ++ fraction)
  if ¬ negative ∧ overflows digits (exponent - fraction.length) then none
  else pure (.float, rest)

def specialFloat (cs : List Char) : Option (Value × List Char) :=
  match (sign cs).2 with
  | 'i' :: 'n' :: 'f' :: rest => some (.float, rest)
  | 'n' :: 'a' :: 'n' :: rest => some (.float, rest)
  | _ => none

/-! ### Dates and times -/

/-- Exactly `width` digits. -/
def fixed (width : Nat) (cs : List Char) : Option (Nat × List Char) :=
  let digits := cs.take width
  if digits.length = width ∧ digits.all isDigit then some (naturalOf 10 digits, cs.drop width)
  else none

def expect (c : Char) : List Char → Option (List Char)
  | d :: rest => if c = d then some rest else none
  | [] => none

def date (cs : List Char) : Option (List Char) := do
  let (year, rest) ← fixed 4 cs
  let (month, rest) ← fixed 2 (← expect '-' rest)
  let (day, rest) ← fixed 2 (← expect '-' rest)
  if (⟨year, month, day⟩ : Date).isValid then pure rest else none

def time (cs : List Char) : Option (List Char) := do
  let (hour, rest) ← fixed 2 cs
  let (minute, rest) ← fixed 2 (← expect ':' rest)
  let (second, rest) ← fixed 2 (← expect ':' rest)
  if hour < 24 ∧ minute < 60 ∧ second ≤ 60 then
    match rest with
    | '.' :: after =>
      if (after.takeWhile isDigit).isEmpty then none else pure (after.dropWhile isDigit)
    | rest => pure rest
  else none

def offset : List Char → Option (List Char)
  | 'Z' :: rest => some rest
  | 'z' :: rest => some rest
  | c :: rest =>
    if c = '+' ∨ c = '-' then do
      let (hours, rest) ← fixed 2 rest
      let (minutes, rest) ← fixed 2 (← expect ':' rest)
      if hours < 24 ∧ minutes < 60 then pure rest else none
    else none
  | [] => none

/-- A date may be followed by a time, and that by an offset. -/
def dateTime (cs : List Char) : Option (Value × List Char) :=
  match date cs with
  | none => (time cs).map fun rest => (.dateTime, rest)
  | some rest =>
    match rest with
    | c :: after =>
      if c = 'T' ∨ c = 't' ∨ c = ' ' then
        match time after with
        | some after => some (.dateTime, (offset after).getD after)
        | none => some (.dateTime, rest)
      else some (.dateTime, rest)
    | [] => some (.dateTime, [])

def number (cs : List Char) : Option (Value × List Char) :=
  dateTime cs <|> decimalFloat cs <|> specialFloat cs <|> integer cs

def scalar : List Char → Option (Value × List Char)
  | 't' :: 'r' :: 'u' :: 'e' :: rest => some (.bool true, rest)
  | 'f' :: 'a' :: 'l' :: 's' :: 'e' :: rest => some (.bool false, rest)
  | '"' :: rest => (string ('"' :: rest)).map fun (s, rest) => (.string (String.ofList s), rest)
  | '\'' :: rest => (string ('\'' :: rest)).map fun (s, rest) => (.string (String.ofList s), rest)
  | cs => number cs

end CalcCycle.Toml
