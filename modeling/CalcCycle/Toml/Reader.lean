import CalcCycle.Toml.Scalar

/-! Reading a TOML document, line by line. -/

namespace CalcCycle.Toml

/-- A comment reaches to the end of its line. -/
def comment? : List Char → Option (List Char)
  | '#' :: rest => some (rest.dropWhile isPrintable)
  | _ => none

/-- What may follow on a line after all that counts; the line ends there. -/
def endOfLine (cs : List Char) : Option (List Char) :=
  let cs := skipSpaces cs
  let cs := (comment? cs).getD cs
  if cs.isEmpty then some [] else newline? cs

/-! ### Keys -/

def isBare (c : Char) : Bool := c.isAlphanum || c == '_' || c == '-'

def simpleKey : List Char → Option (String × List Char)
  | '"' :: rest => (openLine '"' true rest).map fun (s, rest) => (String.ofList s, rest)
  | '\'' :: rest => (openLine '\'' false rest).map fun (s, rest) => (String.ofList s, rest)
  | cs =>
    let name := cs.takeWhile isBare
    if name.isEmpty then none else some (String.ofList name, cs.dropWhile isBare)

/-- Keys with points between them, and what follows after spaces. -/
def keys : Nat → List Char → Option (List String × List Char)
  | 0, _ => none
  | fuel + 1, cs => do
    let (k, rest) ← simpleKey (skipSpaces cs)
    match skipSpaces rest with
    | '.' :: rest =>
      let (ks, rest) ← keys fuel rest
      pure (k :: ks, rest)
    | rest => pure ([k], rest)

/-- The parts of a key, and the levels of arrays and inline tables, stay below this number. -/
def depthLimit : Nat := 80

def dottedKey (cs : List Char) : Option (List String × String × List Char) := do
  let (ks, rest) ← keys (cs.length + 1) cs
  let key ← ks.getLast?
  if ks.length < depthLimit then pure (ks.dropLast, key, rest) else none

/-! ### Values -/

/-- Spaces, comments and line ends between the elements of an array. -/
def skipLayout : Nat → List Char → Option (List Char)
  | 0, cs => some cs
  | fuel + 1, cs =>
    let cs := skipSpaces cs
    match comment? cs with
    | some rest => do skipLayout fuel (← newline? rest)
    | none =>
      match newline? cs with
      | some rest => skipLayout fuel rest
      | none => some cs

def layout (cs : List Char) : Option (List Char) := skipLayout (cs.length + 1) cs

mutual
def value : Nat → Nat → List Char → Option (Value × List Char)
  | 0, _, _ => none
  | fuel + 1, depth, cs =>
    match cs with
    | '[' :: rest =>
      if depth + 1 < depthLimit then do
        let rest ← layout rest
        match rest with
        | ']' :: rest => pure (.array [], rest)
        | rest =>
          let (items, rest) ← items fuel (depth + 1) rest
          pure (.array items, rest)
      else none
    | '{' :: rest =>
      if depth + 1 < depthLimit then
        match skipSpaces rest with
        | '}' :: rest => some (.inlineTable [], rest)
        | rest => do
          let (as, rest) ← assignments fuel (depth + 1) rest
          let t ← ({} : Table).assignAll as
          pure (.inlineTable t.entries, rest)
      else none
    | cs => scalar cs

/-- The items of an array up to its closing bracket; a comma may stand after the last. -/
def items : Nat → Nat → List Char → Option (List Value × List Char)
  | 0, _, _ => none
  | fuel + 1, depth, cs => do
    let (v, rest) ← value fuel depth cs
    match ← layout rest with
    | ']' :: rest => pure ([v], rest)
    | ',' :: rest =>
      match ← layout rest with
      | ']' :: rest => pure ([v], rest)
      | rest =>
        let (vs, rest) ← items fuel depth rest
        pure (v :: vs, rest)
    | _ => none

/-- The assignments of an inline table up to its closing brace. -/
def assignments : Nat → Nat → List Char → Option (List Table.Assignment × List Char)
  | 0, _, _ => none
  | fuel + 1, depth, cs => do
    let (path, key, rest) ← dottedKey cs
    let (v, rest) ← value fuel depth (skipSpaces (← expect '=' rest))
    match skipSpaces rest with
    | '}' :: rest => pure ([⟨path, key, v⟩], rest)
    | ',' :: rest =>
      let (as, rest) ← assignments fuel depth rest
      pure (⟨path, key, v⟩ :: as, rest)
    | _ => none
end

/-! ### Lines -/

inductive Line
  | blank
  | assignment (a : Table.Assignment)
  | header (h : Header)

def header (cs : List Char) : Option (Header × List Char) :=
  match cs with
  | '[' :: '[' :: rest => do
    let (path, key, rest) ← dottedKey rest
    let rest ← expect ']' (← expect ']' rest)
    pure (⟨path, key, true⟩, rest)
  | '[' :: rest => do
    let (path, key, rest) ← dottedKey rest
    let rest ← expect ']' rest
    pure (⟨path, key, false⟩, rest)
  | _ => none

def assignment (cs : List Char) : Option (Table.Assignment × List Char) := do
  let (path, key, rest) ← dottedKey cs
  let rest ← expect '=' rest
  let (v, rest) ← value (2 * rest.length + 2) 0 (skipSpaces rest)
  pure (⟨path, key, v⟩, rest)

def readLine (cs : List Char) : Option (Line × List Char) :=
  match skipSpaces cs with
  | [] => some (.blank, [])
  | '[' :: rest => do
    let (h, rest) ← header ('[' :: rest)
    pure (.header h, ← endOfLine rest)
  | c :: rest =>
    if c = '#' ∨ c = '\n' ∨ c = '\r' then (endOfLine (c :: rest)).map fun rest => (.blank, rest)
    else do
      let (a, rest) ← assignment (c :: rest)
      pure (.assignment a, ← endOfLine rest)

/-- Every line but the last takes at least one character. -/
def readLines : Nat → List Char → Option (List Line)
  | 0, _ => none
  | fuel + 1, cs =>
    if cs.isEmpty then some []
    else do
      let (l, rest) ← readLine cs
      let ls ← readLines fuel rest
      pure (l :: ls)

/-- Splits lines into the assignments before the first header and the sections. -/
def sectionsOf : List Line → List Table.Assignment × List Section
  | [] => ([], [])
  | .blank :: rest => sectionsOf rest
  | .assignment a :: rest =>
    let (top, sections) := sectionsOf rest
    (a :: top, sections)
  | .header h :: rest =>
    let (top, sections) := sectionsOf rest
    ([], ⟨h, top⟩ :: sections)

/-- A byte order mark in front is passed over. -/
def dropMark : List Char → List Char
  | '\ufeff' :: rest => rest
  | cs => cs

def parse (text : String) : Option Table := do
  let cs := dropMark text.toList
  let (top, sections) := sectionsOf (← readLines (cs.length + 1) cs)
  assemble top sections

end CalcCycle.Toml
