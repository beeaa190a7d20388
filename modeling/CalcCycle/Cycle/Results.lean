import CalcCycle.Calendar.Timestamp
import CalcCycle.Feed.Token
import CalcCycle.Text.Uuid
import CalcCycle.Value.Encoding

/-! The results of a cycle: at most one value for each specification. -/

namespace CalcCycle

structure Results where
  view : String
  cycleId : Option Uuid := none
  inputsAt : Option Token := none
  computedAt : Option Timestamp := none
  values : SortedMap Specification Payload := .empty
  deriving Inhabited

namespace Results

def empty (view : String) : Results := { view }

/-- A later value for a specification takes the place of an earlier one. -/
def add (r : Results) (v : Computed) : Results :=
  { r with values := r.values.insert v.specification v.payload }

def addAll (r : Results) (vs : List Computed) : Results := vs.foldl add r

def get? (r : Results) (s : Specification) : Option Computed :=
  (r.values.get? s).map fun p => ⟨s, p⟩

def toValues (r : Results) : List Computed := r.values.entries.map fun (s, p) => ⟨s, p⟩

def forTarget (r : Results) (t : Target) : List Computed :=
  r.toValues.filter (·.specification.target == t)

def specifications (r : Results) : List Specification := r.values.keys

def size (r : Results) : Nat := r.values.size

def orNull (f : α → Json) : Option α → Json
  | some a => f a
  | none => .null

def fields : List String :=
  ["view_name", "cycle_id", "input_data_timestamp", "result_timestamp", "values"]

/-- The values are listed in the order of their specifications. -/
def toJson (r : Results) : Json :=
  .object (fields.zip
    [.string r.view, orNull (fun u => .string u.text) r.cycleId, orNull Token.toJson r.inputsAt,
      orNull (fun t => .string t.text) r.computedAt, .array (r.toValues.map Computed.toJson)])

def uuidReader : Reader Uuid := fun l d => do Uuid.parse (← Reader.string l d)

def timestampReader : Reader Timestamp := fun l d => do Timestamp.parse (← Reader.string l d)

def reader : Reader Results := fun l d => do
  let p ← Reader.parts fields l d
  let r : Results :=
    { view := ← p.required 0 Reader.string
      cycleId := ← p.nullable 1 uuidReader
      inputsAt := ← p.nullable 2 Token.reader
      computedAt := ← p.nullable 3 timestampReader }
  let values ← p.required 4 (Reader.list Computed.reader)
  pure (r.addAll values)

def render (r : Results) : String := r.toJson.render

def parse (text : String) : Option Results := Reader.read reader text

end Results

end CalcCycle
