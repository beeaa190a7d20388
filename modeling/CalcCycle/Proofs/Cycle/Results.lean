import CalcCycle.Cycle.Results
import CalcCycle.Proofs.Text.Uuid
import CalcCycle.Proofs.Value.Encoding

/-! The text of a result depends on nothing but what the result says, and a result is read back from its text. -/

namespace CalcCycle

open Reader (record_reads string_reads list_reads)
open Reader.Parts (ofValues slot_ofValues required_ofValues)

namespace Results

/-! ### Values in any order -/

/-- Two values that do not contradict each other may be added in either order. -/
theorem add_swap {a b : Computed} (h : a.specification = b.specification → a = b) (r : Results) :
    (r.add a).add b = (r.add b).add a := by
  by_cases hab : a.specification = b.specification
  · rw [h hab]
  · have hvalues : (r.values.insert a.specification a.payload).insert b.specification b.payload =
        (r.values.insert b.specification b.payload).insert a.specification a.payload := by
      refine SortedMap.ext_get? fun s => ?_
      simp only [SortedMap.get?_insert]
      by_cases ha : s = a.specification
      · rw [if_pos ha, if_pos ha, if_neg (ha ▸ hab)]
      · rw [if_neg ha, if_neg ha]
    simp only [add, hvalues]

/-- The order in which values are added shows only where they contradict each other. -/
theorem addAll_perm {vs ws : List Computed} (h : vs.Perm ws)
    (hagree : ∀ a ∈ vs, ∀ b ∈ vs, a.specification = b.specification → a = b) (r : Results) :
    r.addAll vs = r.addAll ws :=
  h.foldl_eq' (fun a ha b hb z => add_swap (hagree a ha b hb) z) r

theorem get?_eq_some {r : Results} {s : Specification} {p : Payload} :
    r.get? s = some ⟨s, p⟩ ↔ r.values.get? s = some p := by
  simp [get?]

theorem values_ext {a b : Results} (h : ∀ s, a.get? s = b.get? s) : a.values = b.values :=
  SortedMap.ext_get? fun s => Option.ext fun p => by
    rw [← get?_eq_some, ← get?_eq_some, h s]

/-- A result is given by its view, its cycle, its times and its value for each specification. -/
theorem ext_get? {a b : Results} (hview : a.view = b.view) (hcycle : a.cycleId = b.cycleId)
    (hinputs : a.inputsAt = b.inputsAt) (hcomputed : a.computedAt = b.computedAt)
    (hvalues : ∀ s, a.get? s = b.get? s) : a = b := by
  have hsame := values_ext hvalues
  cases a
  cases b
  simp_all

/-! ### Reading back -/

theorem addAll_entries (r : Results) (l : List (Specification × Payload)) :
    r.addAll (l.map fun (s, p) => ⟨s, p⟩) =
      { r with values := l.foldl (fun m e => m.insert e.1 e.2) r.values } := by
  induction l generalizing r with
  | nil => rfl
  | cons e rest ih => exact ih (r.add ⟨e.1, e.2⟩)

theorem addAll_toValues (r : Results) : addAll { r with values := .empty } r.toValues = r := by
  rw [toValues, addAll_entries]
  exact congrArg (fun values => { r with values }) (SortedMap.ofList_entries r.values)

theorem whole_orNull {α : Type} {write : α → Json} {a? : Option α} (h : ∀ a ∈ a?, (write a).Whole) :
    (orNull write a?).Whole := by
  cases a? with
  | none => exact .null
  | some a => exact h a rfl

/-- A part that may be absent is read back if no value that is there is written as `null`. -/
theorem nullable_orNull {α : Type} {levels : Nat} {vs : List Json} {r : Reader α} (i : Nat) {write : α → Json}
    {a? : Option α} (hr : ∀ a ∈ a?, r.Reads (write a) a) (hnull : ∀ a, (write a).document ≠ .null)
    (hv : vs[i]? = some (orNull write a?)) (hlevels : ∀ v ∈ vs, v.depth < levels) :
    (ofValues levels vs).nullable i r = some a? := by
  have hslot := slot_ofValues levels hv
  unfold Reader.Parts.nullable
  cases a? with
  | none => rw [hslot]; rfl
  | some a =>
    rw [hslot, orNull]
    split
    · exact absurd (Option.some.inj ‹_›) (hnull a)
    · next hd =>
      obtain rfl := Option.some.inj hd
      exact congrArg (Option.map some) (hr a rfl _ (hlevels _ (List.mem_of_getElem? hv)))
    · cases ‹_ = none›

theorem uuid_reads {u : Uuid} (h : u.value < pow2 128) : uuidReader.Reads (.string u.text) u :=
  (string_reads u.text).bind (Uuid.parse_text h)

theorem timestamp_reads {t : Timestamp} (h : Timestamp.parse t.text = some t) :
    timestampReader.Reads (.string t.text) t :=
  (string_reads t.text).bind h

theorem token_reads {t : Token} (h : -(pow2 63 : Int) ≤ t.value ∧ t.value < pow2 63) :
    Token.reader.Reads t.toJson t :=
  (Reader.signed64_reads h).map Token.mk

/-- The result can be handed on as a text: its identifier has 128 bits, its token 64 with a sign, its time has a
text that is read as that time, and its values are plain. -/
structure Portable (r : Results) : Prop where
  cycleId : ∀ u ∈ r.cycleId, u.value < pow2 128
  inputsAt : ∀ t ∈ r.inputsAt, -(pow2 63 : Int) ≤ t.value ∧ t.value < pow2 63
  computedAt : ∀ t ∈ r.computedAt, Timestamp.parse t.text = some t
  values : ∀ s p, r.values.get? s = some p → p.Plain

theorem Portable.add {r : Results} (h : r.Portable) {c : Computed} (hc : c.payload.Plain) : (r.add c).Portable where
  cycleId := h.cycleId
  inputsAt := h.inputsAt
  computedAt := h.computedAt
  values := by
    intro s p hp
    rw [Results.add, SortedMap.get?_insert] at hp
    split_ifs at hp
    · exact Option.some.inj hp ▸ hc
    · exact h.values s p hp

theorem Portable.addAll {r : Results} (h : r.Portable) {vs : List Computed} (hvs : ∀ c ∈ vs, c.payload.Plain) :
    (r.addAll vs).Portable := by
  induction vs generalizing r with
  | nil => exact h
  | cons c rest ih =>
    obtain ⟨hc, hrest⟩ := List.forall_mem_cons.1 hvs
    exact ih (h.add hc) hrest

theorem Portable.toValues {r : Results} (h : r.Portable) : ∀ c ∈ r.toValues, c.payload.Plain := by
  intro c hc
  obtain ⟨e, he, rfl⟩ := List.mem_map.1 hc
  exact h.values _ _ (SortedMap.mem_entries_iff.1 he)

theorem Portable.whole_toJson {r : Results} (h : r.Portable) : r.toJson.Whole := by
  have hcycle : (orNull (fun u => .string u.text) r.cycleId).Whole := whole_orNull fun u _ => .string u.text
  have hinputs : (orNull Token.toJson r.inputsAt).Whole :=
    whole_orNull fun t ht => .number ⟨(h.inputsAt t ht).1, Reader.lt_pow2_of_signed (h.inputsAt t ht).2⟩
  have hcomputed : (orNull (fun t => .string t.text) r.computedAt).Whole := whole_orNull fun t _ => .string t.text
  have hvalues : (Json.array (r.toValues.map Computed.toJson)).Whole := .array fun v hv => by
    obtain ⟨c, hc, rfl⟩ := List.mem_map.1 hv
    exact Computed.whole_toJson (h.toValues c hc)
  exact .object (by simpa [fields] using ⟨.string r.view, hcycle, hinputs, hcomputed, hvalues⟩)

theorem Portable.reads {r : Results} (h : r.Portable) : reader.Reads r.toJson r := by
  refine record_reads fields
    [.string r.view, orNull (fun u => .string u.text) r.cycleId, orNull Token.toJson r.inputsAt,
      orNull (fun t => .string t.text) r.computedAt, .array (r.toValues.map Computed.toJson)] (by decide) rfl
    fun levels hlevels => ?_
  have hview := required_ofValues 0 (string_reads r.view) rfl hlevels
  have hcycle := nullable_orNull 1 (fun u hu => uuid_reads (h.cycleId u hu)) (fun _ => nofun) rfl hlevels
  have hinputs := nullable_orNull 2 (fun t ht => token_reads (h.inputsAt t ht)) (fun _ => nofun) rfl hlevels
  have hcomputed := nullable_orNull 3 (fun t ht => timestamp_reads (h.computedAt t ht)) (fun _ => nofun) rfl hlevels
  have hvalues := required_ofValues 4 (list_reads fun c hc => Computed.reads (h.toValues c hc)) rfl hlevels
  simp only [hview, hcycle, hinputs, hcomputed, hvalues, Option.bind_eq_bind, Option.bind_some]
  exact congrArg some (addAll_toValues r)

/-- The text is canonical and loses nothing. It is the same for any two results that say the same, and for values
added in any order, unless two of them contradict each other: of these the later one stays, so that the results say
different things. And the result is read back from its text, if it is portable and the text does not nest deeper
than readers go. -/
theorem render_canonical_lossless (r : Results) :
    (∀ vs ws, vs.Perm ws → (∀ a ∈ vs, ∀ b ∈ vs, a.specification = b.specification → a = b) →
      (r.addAll vs).render = (r.addAll ws).render) ∧
    (∀ r' : Results, r'.view = r.view → r'.cycleId = r.cycleId → r'.inputsAt = r.inputsAt →
      r'.computedAt = r.computedAt → (∀ s, r'.get? s = r.get? s) → r'.render = r.render) ∧
    (r.Portable → r.toJson.depth ≤ 127 → parse r.render = some r) := by
  refine ⟨fun vs ws hperm hagree => ?_, fun r' hview hcycle hinputs hcomputed hvalues => ?_, fun h hdepth => ?_⟩
  · rw [addAll_perm hperm hagree]
  · rw [ext_get? hview hcycle hinputs hcomputed hvalues]
  · exact h.reads.read h.whole_toJson hdepth

/-- A headline with a quote, a line break and a letter outside ASCII. -/
def headline : Computed where
  specification := ⟨"Head\\line", .position "P\"1\"", .ofList [("lang", "d\u00fc\t")]⟩
  payload := .text "up \u2191\nby \\ \u0007"

/-- Whole numbers at both ends of their range, in nested objects. -/
def bounds : Json :=
  .object [("\u00e9", .array [.number (.integer (-9223372036854775808)), .null]),
    ("\u4e2d", .object [("max", .number (.integer 18446744073709551615))])]

theorem whole_bounds : bounds.Whole := by
  refine .object (List.forall_mem_cons.2 ⟨.array ?_, List.forall_mem_singleton.2 (.object ?_)⟩)
  · exact List.forall_mem_cons.2 ⟨.number (by decide), List.forall_mem_singleton.2 .null⟩
  · exact List.forall_mem_singleton.2 (.number (by decide))

theorem sorted_bounds : bounds.Sorted := by
  refine .object (List.forall_mem_cons.2 ⟨.array ?_, List.forall_mem_singleton.2 (.object ?_ (by decide))⟩) (by decide)
  · exact List.forall_mem_cons.2 ⟨.number _, List.forall_mem_singleton.2 .null⟩
  · exact List.forall_mem_singleton.2 (.number _)

def spread : Computed := ⟨⟨"Range", .aggregate "Desk", .empty⟩, .json bounds⟩

def stamped : Results :=
  { view := "Desk \"A\"\n", cycleId := some ⟨0x0123456789abcdef0123456789abcdef⟩, inputsAt := some ⟨-42⟩
    computedAt := some (.ofMillis 1700000000123) }

theorem portable_stamped : stamped.Portable where
  cycleId := by decide
  inputsAt := by decide
  computedAt := by decide
  values := fun _ _ h => nomatch h

/-- Two values added in either order give one text, and from it the result comes back. -/
theorem stamped_read_back :
    (stamped.addAll [headline, spread]).render = (stamped.addAll [spread, headline]).render ∧
      parse (stamped.addAll [headline, spread]).render = some (stamped.addAll [headline, spread]) := by
  have hportable : (stamped.addAll [headline, spread]).Portable :=
    portable_stamped.addAll (List.forall_mem_cons.2
      ⟨.text _, List.forall_mem_singleton.2 (.json whole_bounds sorted_bounds)⟩)
  have hagree : ∀ a ∈ [headline, spread], ∀ b ∈ [headline, spread],
      a.specification = b.specification → a = b := by
    simp [headline, spread]
  exact ⟨(render_canonical_lossless stamped).1 _ _ (.swap _ _ _) hagree,
    (render_canonical_lossless _).2.2 hportable (by decide)⟩

end Results

end CalcCycle
