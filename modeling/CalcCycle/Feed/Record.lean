import CalcCycle.Value.Encoding

/-! Records of live data as they stand in a JSON file. -/

namespace CalcCycle

structure LiveRecord where
  name : String
  target : Target
  properties : Properties
  payload : Payload
  deriving Inhabited

namespace LiveRecord

def specification (r : LiveRecord) : Specification := ⟨r.name, r.target, r.properties⟩

def toJson (r : LiveRecord) : Json :=
  .object [("value_name", .string r.name), ("target", r.target.toJson),
    ("properties", Properties.toJson r.properties), ("value", r.payload.toJson)]

def reader : Reader LiveRecord := fun l d => do
  let p ← Reader.parts ["value_name", "target", "properties", "value"] l d
  pure
    { name := ← p.required 0 Reader.string
      target := ← p.required 1 Target.reader
      properties := ← p.withDefault 2 .empty Properties.reader
      payload := ← p.required 3 Payload.reader }

end LiveRecord

end CalcCycle
