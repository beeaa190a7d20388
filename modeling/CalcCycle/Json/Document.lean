import CalcCycle.Text.Hex

/-! Reading a JSON text into a tree that keeps what the text says: numbers as they are written,
members in order and with repeats, and strings whose escapes do not form characters. What a number or
such a string means is decided where it is used. -/

namespace CalcCycle

/-- A number as written: sign, digits before and after the point, and exponent. -/
structure Numeral where
  negative : Bool
  whole : List Char
  fraction : List Char
  exponent : Option (Bool × List Char)
  deriving DecidableEq, Inhabited

/-- A string is `none` where an escape is half of a surrogate pair without the other. -/
inductive Document
  | null
  | bool (b : Bool)
  | number (n : Numeral)
  | string (s : Option String)
  | array (items : List Document)
  | object (members : List (Option String × Document))
  deriving Inhabited

namespace Document

def isBlank (c : Char) : Bool := c == ' ' || c == '\n' || c == '\t' || c == '\r'

def skipBlanks (cs : List Char) : List Char := cs.dropWhile isBlank

def isDigit (c : Char) : Bool := '0' ≤ c && c ≤ '9'

/-- The code points and surrogates of a string up to its closing quote, and what follows. -/
def readUnits : List Char → Option (List Nat × List Char)
  | '"' :: rest => some ([], rest)
  | '\\' :: 'u' :: a :: b :: c :: d :: rest => do
    let u ← Hex.read? [a, b, c, d]
    let (us, rest) ← readUnits rest
    pure (u :: us, rest)
  | '\\' :: c :: rest => do
    let u ← match c with
      | '"' => some 34
      | '\\' => some 92
      | '/' => some 47
      | 'b' => some 8
      | 'f' => some 12
      | 'n' => some 10
      | 'r' => some 13
      | 't' => some 9
      | _ => none
    let (us, rest) ← readUnits rest
    pure (u :: us, rest)
  | c :: rest => do
    if c.toNat < 32 ∨ c = '\\' then none
    else
      let (us, rest) ← readUnits rest
      pure (c.toNat :: us, rest)
  | [] => none

/-- Joins surrogate pairs; a surrogate outside a pair is no character. -/
def joinPairs : List Nat → Option (List Char)
  | [] => some []
  | u :: rest =>
    if 0xD800 ≤ u ∧ u < 0xDC00 then
      match rest with
      | v :: rest =>
        if 0xDC00 ≤ v ∧ v < 0xE000 then do
          let cs ← joinPairs rest
          pure (Char.ofNat (0x10000 + (u - 0xD800) * 0x400 + (v - 0xDC00)) :: cs)
        else none
      | [] => none
    else if 0xDC00 ≤ u ∧ u < 0xE000 then none
    else do
      let cs ← joinPairs rest
      pure (Char.ofNat u :: cs)

def readString (cs : List Char) : Option (Option String × List Char) := do
  let (units, rest) ← readUnits cs
  pure ((joinPairs units).map String.ofList, rest)

def digitsThen (cs : List Char) : List Char × List Char := (cs.takeWhile isDigit, cs.dropWhile isDigit)

def readFraction : List Char → Option (List Char × List Char)
  | '.' :: rest =>
    let (digits, rest) := digitsThen rest
    if digits.isEmpty then none else some (digits, rest)
  | rest => some ([], rest)

def readExponent : List Char → Option (Option (Bool × List Char) × List Char)
  | c :: rest =>
    if c = 'e' ∨ c = 'E' then
      let (negative, rest) := match rest with
        | '+' :: r => (false, r)
        | '-' :: r => (true, r)
        | r => (false, r)
      let (digits, rest) := digitsThen rest
      if digits.isEmpty then none else some (some (negative, digits), rest)
    else some (none, c :: rest)
  | [] => some (none, [])

/-- The part before the point is `0` or begins with another digit. -/
def readWhole : List Char → Option (List Char × List Char)
  | '0' :: rest => some (['0'], rest)
  | rest =>
    let (digits, rest) := digitsThen rest
    if digits.isEmpty then none else some (digits, rest)

def readNumeral (cs : List Char) : Option (Numeral × List Char) := do
  let (negative, rest) := match cs with
    | '-' :: r => (true, r)
    | r => (false, r)
  let (whole, rest) ← readWhole rest
  let (fraction, rest) ← readFraction rest
  let (exponent, rest) ← readExponent rest
  pure ({ negative, whole, fraction, exponent }, rest)

mutual
/-- Reads one value after blanks. -/
def readValue : Nat → List Char → Option (Document × List Char)
  | 0, _ => none
  | fuel + 1, cs =>
    match skipBlanks cs with
    | 'n' :: 'u' :: 'l' :: 'l' :: rest => some (.null, rest)
    | 't' :: 'r' :: 'u' :: 'e' :: rest => some (.bool true, rest)
    | 'f' :: 'a' :: 'l' :: 's' :: 'e' :: rest => some (.bool false, rest)
    | '"' :: rest => (readString rest).map fun (s, rest) => (.string s, rest)
    | '[' :: rest =>
      match skipBlanks rest with
      | ']' :: rest => some (.array [], rest)
      | rest => (readItems fuel rest).map fun (items, rest) => (.array items, rest)
    | '{' :: rest =>
      match skipBlanks rest with
      | '}' :: rest => some (.object [], rest)
      | rest => (readMembers fuel rest).map fun (members, rest) => (.object members, rest)
    | rest => (readNumeral rest).map fun (n, rest) => (.number n, rest)

/-- Reads the items of an array up to its closing bracket. -/
def readItems : Nat → List Char → Option (List Document × List Char)
  | 0, _ => none
  | fuel + 1, cs => do
    let (item, rest) ← readValue fuel cs
    match skipBlanks rest with
    | ']' :: rest => pure ([item], rest)
    | ',' :: rest =>
      let (items, rest) ← readItems fuel rest
      pure (item :: items, rest)
    | _ => none

/-- Reads the members of an object up to its closing brace. -/
def readMembers : Nat → List Char → Option (List (Option String × Document) × List Char)
  | 0, _ => none
  | fuel + 1, cs =>
    match skipBlanks cs with
    | '"' :: rest => do
      let (name, rest) ← readString rest
      match skipBlanks rest with
      | ':' :: rest =>
        let (value, rest) ← readValue fuel rest
        match skipBlanks rest with
        | '}' :: rest => pure ([(name, value)], rest)
        | ',' :: rest =>
          let (members, rest) ← readMembers fuel rest
          pure ((name, value) :: members, rest)
        | _ => none
      | _ => none
    | _ => none
end

/-- Each level of nesting spends at most two units for a character it consumes. -/
def parseChars (cs : List Char) : Option Document := do
  let (v, rest) ← readValue (2 * cs.length + 2) cs
  if (skipBlanks rest).isEmpty then pure v else none

def parse (text : String) : Option Document := parseChars text.toList

end Document

end CalcCycle
