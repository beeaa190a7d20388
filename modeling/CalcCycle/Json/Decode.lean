import CalcCycle.Json.Numeral
import CalcCycle.Number.Power
import CalcCycle.Sorted.Map
import CalcCycle.Sorted.Set

/-! Reading typed values out of a JSON document. A reader is given the levels of nesting it may still
enter; members that no reader asks for are never looked into. -/

namespace CalcCycle

abbrev Reader (α : Type) := Nat → Document → Option α

namespace Reader

/-- Arrays and objects may nest 127 deep. -/
def nestingLimit : Nat := 128

def enter (levels : Nat) : Option Nat := if levels ≤ 1 then none else some (levels - 1)

def read (r : Reader α) (text : String) : Option α := do
  let d ← Document.parse text
  r nestingLimit d

/-! ### Scalars -/

def string : Reader String
  | _, .string s => s
  | _, _ => none

def bool : Reader Bool
  | _, .bool b => some b
  | _, _ => none

def unit : Reader Unit
  | _, .null => some ()
  | _, _ => none

def double : Reader Float
  | _, .number n => do
    match ← n.value? with
    | .integer i =>
      let x := (UInt64.ofNat i.natAbs).toFloat
      pure (if i < 0 then -x else x)
    | .double x => pure x
  | _, _ => none

def integer : Reader Int
  | _, .number n => do
    match ← n.value? with
    | .integer i => pure i
    | .double _ => none
  | _, _ => none

/-- A whole number from 0 to below `2 ^ bits`. -/
def natural (bits : Nat) : Reader Nat := fun l d => do
  let i ← integer l d
  if 0 ≤ i ∧ i < pow2 bits then pure i.toNat else none

def signed64 : Reader Int := fun l d => do
  let i ← integer l d
  if i < pow2 63 then pure i else none

/-! ### Containers -/

def list (item : Reader α) : Reader (List α)
  | l, .array items => do
    let l ← enter l
    items.mapM (item l)
  | _, _ => none

def pair (first : Reader α) (second : Reader β) : Reader (α × β)
  | l, .array [a, b] => do
    let l ← enter l
    pure (← first l a, ← second l b)
  | _, _ => none

/-- Of several members of one name the last counts. -/
def map (value : Reader ν) : Reader (SortedMap String ν)
  | l, .object members => do
    let l ← enter l
    let entries ← members.mapM fun (k, v) => do pure (← k, ← value l v)
    pure (.ofList entries)
  | _, _ => none

def set : Reader (SortedSet String) := fun l d => do
  let items ← list string l d
  pure (.ofList items)

/-! ### Records -/

/-- The parts of a record by position. `named` tells an object from an array of the parts in order. -/
structure Parts where
  named : Bool
  levels : Nat
  slots : List (Option Document)

def placeMember (fields : List String) (slots : List (Option Document))
    (member : Option String × Document) : Option (List (Option Document)) := do
  let name ← member.1
  match fields.findIdx? (· == name) with
  | none => pure slots
  | some i =>
    match slots[i]? with
    | some none => pure (slots.set i (some member.2))
    | _ => none

/-- A name that is none of the fields is passed over, a field given twice is refused, and an array
must not be longer than the fields. -/
def parts (fields : List String) : Reader Parts
  | l, .object members => do
    let l ← enter l
    let slots ← members.foldlM (placeMember fields) (fields.map fun _ => none)
    pure ⟨true, l, slots⟩
  | l, .array items => do
    let l ← enter l
    if items.length ≤ fields.length then
      pure ⟨false, l, items.map some ++ List.replicate (fields.length - items.length) none⟩
    else none
  | _, _ => none

namespace Parts

def slot (p : Parts) (i : Nat) : Option Document := (p.slots[i]?).join

def required (p : Parts) (i : Nat) (r : Reader α) : Option α := do
  let d ← p.slot i
  r p.levels d

def withDefault (p : Parts) (i : Nat) (dflt : α) (r : Reader α) : Option α :=
  match p.slot i with
  | some d => r p.levels d
  | none => some dflt

/-- A part that may be `null`, or be left out of an object. -/
def nullable (p : Parts) (i : Nat) (r : Reader α) : Option (Option α) :=
  match p.slot i with
  | some .null => some none
  | some d => (r p.levels d).map some
  | none => if p.named then some none else none

end Parts

/-! ### Alternatives -/

/-- The name of an alternative and its content: a bare string, or an object with one member. -/
def alternative : Nat → Document → Option (String × Nat × Option Document)
  | l, .string (some name) => some (name, l, none)
  | l, .object [(some name, content)] => do
    let l ← enter l
    pure (name, l, some content)
  | _, _ => none

def choose (names : List (String × α)) (name : String) : Option α :=
  (names.find? (·.1 == name)).map (·.2)

/-- An alternative without content; written as an object its content is `null`. -/
def plainAlternative (names : List (String × α)) : Reader α := fun l d => do
  let (name, l, content) ← alternative l d
  let a ← choose names name
  match content with
  | none => pure a
  | some c =>
    unit l c
    pure a

/-- An alternative with content. -/
def taggedAlternative (readers : List (String × Reader α)) : Reader α := fun l d => do
  let (name, l, content) ← alternative l d
  let r ← choose readers name
  let c ← content
  r l c

/-! ### Any JSON value -/

mutual
/-- Any value; members are sorted by name and the last of one name counts. -/
def json : Reader Json
  | _, .null => some .null
  | _, .bool b => some (.bool b)
  | _, .number n => n.value?.map .number
  | _, .string s => s.map .string
  | l, .array items => do
    let l ← enter l
    let items ← jsonItems l items
    pure (.array items)
  | l, .object members => do
    let l ← enter l
    let members ← jsonMembers l members
    pure (.object (SortedMap.ofList members).entries)

def jsonItems : Nat → List Document → Option (List Json)
  | _, [] => some []
  | l, d :: rest => do
    let v ← json l d
    let vs ← jsonItems l rest
    pure (v :: vs)

def jsonMembers : Nat → List (Option String × Document) → Option (List (String × Json))
  | _, [] => some []
  | l, (k, d) :: rest => do
    let k ← k
    let v ← json l d
    let vs ← jsonMembers l rest
    pure ((k, v) :: vs)
end

end Reader

end CalcCycle
