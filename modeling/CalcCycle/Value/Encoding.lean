import CalcCycle.Json.Decode
import CalcCycle.Json.Printer
import CalcCycle.Value.Payload

/-! JSON forms of targets, requirements, specifications, payloads and values. -/

namespace CalcCycle

namespace TargetKind

def tag : TargetKind → String
  | primitive => "Primitive"
  | security => "Security"
  | position => "Position"
  | multiplePositions => "MultiplePositions"

def tags : List (String × TargetKind) := executionOrder.map fun k => (k.tag, k)

def toJson (k : TargetKind) : Json := .string k.tag

def reader : Reader TargetKind := Reader.plainAlternative tags

end TargetKind

namespace Target

def toJson (t : Target) : Json := .object [("target_type", t.kind.toJson), ("id", .string t.id)]

def reader : Reader Target := fun l d => do
  let p ← Reader.parts ["target_type", "id"] l d
  pure { kind := ← p.required 0 TargetKind.reader, id := ← p.required 1 Reader.string }

end Target

namespace Properties

def toJson (p : Properties) : Json := .object (p.entries.map fun (k, v) => (k, .string v))

def reader : Reader Properties := Reader.map Reader.string

end Properties

namespace Constraints

def toJson (c : Constraints) : Json :=
  .object (c.entries.map fun (k, vs) => (k, .array (vs.elements.map .string)))

def reader : Reader Constraints := Reader.map Reader.set

end Constraints

namespace Requirement

def toJson (r : Requirement) : Json :=
  .object [("value_name", .string r.name), ("target", r.target.toJson),
    ("constraints", Constraints.toJson r.constraints)]

def reader : Reader Requirement := fun l d => do
  let p ← Reader.parts ["value_name", "target", "constraints"] l d
  pure
    { name := ← p.required 0 Reader.string
      target := ← p.required 1 Target.reader
      constraints := ← p.withDefault 2 .empty Constraints.reader }

end Requirement

namespace Specification

def toJson (s : Specification) : Json :=
  .object [("value_name", .string s.name), ("target", s.target.toJson),
    ("properties", Properties.toJson s.properties)]

def reader : Reader Specification := fun l d => do
  let p ← Reader.parts ["value_name", "target", "properties"] l d
  pure
    { name := ← p.required 0 Reader.string
      target := ← p.required 1 Target.reader
      properties := ← p.withDefault 2 .empty Properties.reader }

end Specification

namespace Decimal

/-- Written as a double. -/
def toJson (d : Decimal) : Json := .double d.toDouble

/-- A whole number, a double by its shortest digits, or a text. -/
def reader : Reader Decimal
  | _, .number n => do
    match ← n.value? with
    | .integer i => pure (ofInt i)
    | .double x => ofDouble x
  | _, .string s => do parse (← s)
  | _, _ => none

end Decimal

namespace Payload

def toJson : Payload → Json
  | decimal d => .tagged "Decimal" d.toJson
  | float x => .tagged "Float" (.double x)
  | text s => .tagged "Text" (.string s)
  | series points => .tagged "Series" (.array (points.map fun (x, y) => .array [.double x, .double y]))
  | json v => .tagged "Json" v

def reader : Reader Payload := Reader.taggedAlternative
  [("Decimal", fun l d => (Decimal.reader l d).map decimal),
    ("Float", fun l d => (Reader.double l d).map float),
    ("Text", fun l d => (Reader.string l d).map text),
    ("Series", fun l d => (Reader.list (Reader.pair Reader.double Reader.double) l d).map series),
    ("Json", fun l d => (Reader.json l d).map json)]

end Payload

namespace Computed

def toJson (c : Computed) : Json :=
  .object [("specification", c.specification.toJson), ("value", c.payload.toJson)]

def reader : Reader Computed := fun l d => do
  let p ← Reader.parts ["specification", "value"] l d
  pure
    { specification := ← p.required 0 Specification.reader
      payload := ← p.required 1 Payload.reader }

end Computed

end CalcCycle
