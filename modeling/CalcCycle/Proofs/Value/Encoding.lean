import CalcCycle.Proofs.Json.Reading
import CalcCycle.Value.Encoding

/-! Values with their specifications are read back from their JSON form. Of the payloads these are texts, and JSON
values with whole numbers only. -/

namespace CalcCycle

open Reader (record_reads string_reads map_reads taggedAlternative_reads)
open Reader.Parts (required_ofValues withDefault_ofValues)

namespace TargetKind

theorem reads (k : TargetKind) : reader.Reads k.toJson k :=
  Reader.plainAlternative_reads (by cases k <;> rfl)

end TargetKind

namespace Target

theorem whole_toJson (t : Target) : t.toJson.Whole :=
  .object (by simpa using ⟨.string t.kind.tag, .string t.id⟩)

theorem reads (t : Target) : reader.Reads t.toJson t := by
  refine record_reads ["target_type", "id"] [t.kind.toJson, .string t.id] (by decide) rfl
    fun levels hlevels => ?_
  have hkind := required_ofValues 0 t.kind.reads rfl hlevels
  have hid := required_ofValues 1 (string_reads t.id) rfl hlevels
  simp only [hkind, hid, Option.bind_eq_bind, Option.bind_some]
  rfl

end Target

namespace Properties

theorem whole_toJson (p : Properties) : (toJson p).Whole :=
  .object fun _ he => by
    obtain ⟨entry, -, rfl⟩ := List.mem_map.1 he
    exact .string entry.2

theorem reads (p : Properties) : reader.Reads (toJson p) p := map_reads fun e _ => string_reads e.2

end Properties

namespace Specification

theorem whole_toJson (s : Specification) : s.toJson.Whole :=
  .object (by simpa using ⟨.string s.name, s.target.whole_toJson, Properties.whole_toJson s.properties⟩)

theorem reads (s : Specification) : reader.Reads s.toJson s := by
  refine record_reads ["value_name", "target", "properties"]
    [.string s.name, s.target.toJson, Properties.toJson s.properties] (by decide) rfl
    fun levels hlevels => ?_
  have hname := required_ofValues 0 (string_reads s.name) rfl hlevels
  have htarget := required_ofValues 1 s.target.reads rfl hlevels
  have hproperties := withDefault_ofValues 2 .empty (Properties.reads s.properties) rfl hlevels
  simp only [hname, htarget, hproperties, Option.bind_eq_bind, Option.bind_some]
  rfl

end Specification

namespace Payload

/-- A text, or a JSON value with whole numbers only and with its objects sorted. -/
inductive Plain : Payload → Prop
  | text (s : String) : Plain (.text s)
  | json {v : Json} (whole : v.Whole) (sorted : v.Sorted) : Plain (.json v)

theorem Plain.whole_toJson {p : Payload} (h : p.Plain) : p.toJson.Whole := by
  cases h with
  | text s => exact .object (List.forall_mem_singleton.2 (.string s))
  | json whole sorted => exact .object (List.forall_mem_singleton.2 whole)

theorem Plain.reads {p : Payload} (h : p.Plain) : reader.Reads p.toJson p := by
  cases h with
  | text s => exact taggedAlternative_reads ((string_reads s).map Payload.text) rfl
  | json whole sorted => exact taggedAlternative_reads ((Reader.json_reads whole sorted).map Payload.json) rfl

end Payload

namespace Computed

theorem whole_toJson {c : Computed} (h : c.payload.Plain) : c.toJson.Whole :=
  .object (by simpa using ⟨c.specification.whole_toJson, h.whole_toJson⟩)

theorem reads {c : Computed} (h : c.payload.Plain) : reader.Reads c.toJson c := by
  refine record_reads ["specification", "value"] [c.specification.toJson, c.payload.toJson]
    (by decide) rfl fun levels hlevels => ?_
  have hspecification := required_ofValues 0 c.specification.reads rfl hlevels
  have hpayload := required_ofValues 1 h.reads rfl hlevels
  simp only [hspecification, hpayload, Option.bind_eq_bind, Option.bind_some]
  rfl

end Computed

end CalcCycle
