import CalcCycle.Proofs.Json.Scalars

/-! A text that was printed is read: the document says what was printed, value by value, and nothing of the text
is left. The fuel of the reader is enough for every text. -/

namespace CalcCycle

namespace Document

/-- The character may begin a number. -/
def BeginsNumber (c : Char) : Prop := isDigit c = true ∨ c = '-'

instance (c : Char) : Decidable (BeginsNumber c) := inferInstanceAs (Decidable (_ ∨ _))

theorem BeginsNumber.ne {c d : Char} (h : BeginsNumber c) (hd : ¬ BeginsNumber d) : c ≠ d := fun he => hd (he ▸ h)

theorem BeginsNumber.not_isBlank {c : Char} (h : BeginsNumber c) : isBlank c = false := by
  have hspace : c ≠ ' ' := h.ne (by decide)
  have hline : c ≠ '\n' := h.ne (by decide)
  have htab : c ≠ '\t' := h.ne (by decide)
  have hreturn : c ≠ '\r' := h.ne (by decide)
  simp [isBlank, hspace, hline, htab, hreturn]

end Document

namespace Json

/-- All numbers in the value are whole and fit 64 bits, with or without a sign. -/
inductive Whole : Json → Prop
  | null : Whole .null
  | bool (b : Bool) : Whole (.bool b)
  | number {i : Int} (fits : -(pow2 63 : Int) ≤ i ∧ i < pow2 64) : Whole (.number (.integer i))
  | string (s : String) : Whole (.string s)
  | array {items : List Json} (each : ∀ v ∈ items, Whole v) : Whole (.array items)
  | object {members : List (String × Json)} (each : ∀ e ∈ members, Whole e.2) : Whole (.object members)

/-- What a reader sees of a number. -/
def numeral : JsonNumber → Numeral
  | .integer i => .ofInt i
  | .double _ => default

mutual
/-- What a reader sees of a value. -/
def document : Json → Document
  | null => .null
  | bool b => .bool b
  | number n => .number (numeral n)
  | string s => .string (some s)
  | array items => .array (documents items)
  | object members => .object (namedDocuments members)

def documents : List Json → List Document
  | [] => []
  | v :: rest => document v :: documents rest

def namedDocuments : List (String × Json) → List (Option String × Document)
  | [] => []
  | (k, v) :: rest => (some k, document v) :: namedDocuments rest
end

theorem documents_eq_map (items : List Json) : documents items = items.map document := by
  induction items with
  | nil => rfl
  | cons v rest ih => rw [documents, ih, List.map_cons]

theorem namedDocuments_eq_map (members : List (String × Json)) :
    namedDocuments members = members.map fun e => (some e.1, e.2.document) := by
  induction members with
  | nil => rfl
  | cons e rest ih => rw [namedDocuments, ih, List.map_cons]

/-- The text of a value begins with a character that is neither blank nor the end of an array. -/
theorem chars_eq_cons {v : Json} (h : v.Whole) :
    ∃ c cs, v.chars = c :: cs ∧ Document.isBlank c = false ∧ c ≠ ']' := by
  cases h with
  | null => exact ⟨_, _, rfl, by decide, by decide⟩
  | bool b => cases b <;> exact ⟨_, _, rfl, by decide, by decide⟩
  | string s => exact ⟨_, _, rfl, by decide, by decide⟩
  | @array items => cases items <;> exact ⟨_, _, rfl, by decide, by decide⟩
  | @object members => cases members <;> exact ⟨_, _, rfl, by decide, by decide⟩
  | @number i =>
    obtain ⟨c, cs, hcs, hc⟩ := Document.integerText_eq_cons i
    have hbegins : Document.BeginsNumber c := hc
    exact ⟨c, cs, hcs, hbegins.not_isBlank, hbegins.ne (by decide)⟩

end Json

namespace Document

theorem skipBlanks_cons {c : Char} (h : isBlank c = false) (rest : List Char) :
    skipBlanks (c :: rest) = c :: rest := by
  simp [skipBlanks, h]

theorem endsNumber_cons {c : Char} (h : c = ',' ∨ c = ']' ∨ c = '}') (rest : List Char) :
    EndsNumber (c :: rest) := by
  rintro d hd
  cases Option.some.inj hd
  rcases h with rfl | rfl | rfl <;> decide

theorem endsNumber_itemsTail (items : List Json) (rest : List Char) :
    EndsNumber (Json.itemsTail items ++ rest) := by
  cases items with
  | nil => exact endsNumber_cons (by decide) _
  | cons v items => exact endsNumber_cons (by decide) _

theorem endsNumber_membersTail (members : List (String × Json)) (rest : List Char) :
    EndsNumber (Json.membersTail members ++ rest) := by
  cases members with
  | nil => exact endsNumber_cons (by decide) _
  | cons e members => exact endsNumber_cons (by decide) _

/-- What begins like a number is read as one. -/
theorem readValue_numeral {c : Char} (h : BeginsNumber c) (fuel : Nat) (cs : List Char) :
    readValue (fuel + 1) (c :: cs) = (readNumeral (c :: cs)).map fun read => (.number read.1, read.2) := by
  rw [readValue, skipBlanks_cons h.not_isBlank]
  split
  case h_7 => rfl
  all_goals
    next he => exact absurd (List.cons.inj he).1 (h.ne (by decide))

/-- The text of the value is read, and what follows it is left. -/
def Legible (v : Json) : Prop :=
  ∀ {fuel : Nat} {rest : List Char}, 2 * v.chars.length ≤ fuel → EndsNumber rest →
    readValue fuel (v.chars ++ rest) = some (v.document, rest)

theorem exists_fuel {c : Char} {cs : List Char} {fuel : Nat} (h : 2 * (c :: cs).length ≤ fuel) :
    ∃ rest, fuel = rest + 1 ∧ 2 * cs.length ≤ rest := by
  rw [List.length_cons] at h
  exact ⟨fuel - 1, by omega, by omega⟩

theorem readItems_last {fuel : Nat} {cs rest : List Char} {d : Document}
    (hitem : readValue fuel cs = some (d, ']' :: rest)) : readItems (fuel + 1) cs = some ([d], rest) := by
  simp only [readItems, hitem, Option.bind_eq_bind, Option.bind_some, Option.pure_def,
    skipBlanks_cons (show isBlank ']' = false by decide)]

/-- After an item that is not the last one the others are read. -/
theorem readItems_more {fuel : Nat} {cs rest : List Char} {d : Document}
    (hitem : readValue fuel cs = some (d, ',' :: rest)) :
    readItems (fuel + 1) cs = (readItems fuel rest).bind fun read => some (d :: read.1, read.2) := by
  simp only [readItems, hitem, Option.bind_eq_bind, Option.bind_some, Option.pure_def,
    skipBlanks_cons (show isBlank ',' = false by decide)]

theorem readItems_chars {v : Json} {items : List Json} {fuel : Nat} {rest : List Char} (hv : Legible v)
    (hitems : ∀ x ∈ items, Legible x) (hfuel : 2 * (v.chars ++ Json.itemsTail items).length ≤ fuel) :
    readItems fuel (v.chars ++ (Json.itemsTail items ++ rest)) = some (v.document :: Json.documents items, rest) := by
  induction items generalizing v fuel with
  | nil =>
    simp only [List.length_append, Json.itemsTail, List.length_singleton] at hfuel
    obtain ⟨fuel, rfl⟩ := Nat.exists_eq_add_one_of_ne_zero (show fuel ≠ 0 by omega)
    exact readItems_last (hv (by omega) (endsNumber_itemsTail [] rest))
  | cons x items ih =>
    obtain ⟨hx, hrest⟩ := List.forall_mem_cons.1 hitems
    simp only [List.length_append, Json.itemsTail, List.length_cons] at hfuel
    obtain ⟨fuel, rfl⟩ := Nat.exists_eq_add_one_of_ne_zero (show fuel ≠ 0 by omega)
    have hmore : readItems fuel (x.chars ++ (Json.itemsTail items ++ rest)) = _ :=
      ih hx hrest (by rw [List.length_append]; omega)
    have htail : Json.itemsTail (x :: items) ++ rest = ',' :: (x.chars ++ (Json.itemsTail items ++ rest)) := by
      simp [Json.itemsTail]
    have hitem : readValue fuel (v.chars ++ (Json.itemsTail (x :: items) ++ rest)) = _ :=
      hv (by omega) (endsNumber_itemsTail (x :: items) rest)
    rw [htail] at hitem ⊢
    rw [readItems_more hitem, hmore]
    rfl

/-- A string begins with a quote, and after it the string is read. -/
theorem quote_eq_cons (k : String) (rest : List Char) :
    ∃ text, Json.quote k ++ rest = '"' :: text ∧ readString text = some (some k, rest) := by
  refine ⟨k.toList.flatMap Json.escape ++ '"' :: rest, ?_, readString_escaped k rest⟩
  rw [Json.quote, List.cons_append, List.append_assoc, List.singleton_append]

/-- The last member is read by its name and its value. -/
theorem readMembers_last {k : String} {fuel : Nat} {cs rest : List Char} {d : Document}
    (hvalue : readValue fuel cs = some (d, '}' :: rest)) :
    readMembers (fuel + 1) (Json.quote k ++ ':' :: cs) = some ([(some k, d)], rest) := by
  obtain ⟨text, htext, hname⟩ := quote_eq_cons k (':' :: cs)
  rw [htext, readMembers, skipBlanks_cons (by decide)]
  simp only [hname, hvalue, Option.bind_eq_bind, Option.bind_some, skipBlanks_cons (show isBlank ':' = false by decide),
    skipBlanks_cons (show isBlank '}' = false by decide), Option.pure_def]

/-- A member that is not the last one is read by its name and its value, and then the others are read. -/
theorem readMembers_more {k : String} {fuel : Nat} {cs rest : List Char} {d : Document}
    (hvalue : readValue fuel cs = some (d, ',' :: rest)) :
    readMembers (fuel + 1) (Json.quote k ++ ':' :: cs) =
      (readMembers fuel rest).bind fun read => some ((some k, d) :: read.1, read.2) := by
  obtain ⟨text, htext, hname⟩ := quote_eq_cons k (':' :: cs)
  rw [htext, readMembers, skipBlanks_cons (by decide)]
  simp only [hname, hvalue, Option.bind_eq_bind, Option.bind_some, skipBlanks_cons (show isBlank ':' = false by decide),
    skipBlanks_cons (show isBlank ',' = false by decide), Option.pure_def]

theorem readMembers_chars {k : String} {v : Json} {members : List (String × Json)} {fuel : Nat}
    {rest : List Char} (hv : Legible v) (hmembers : ∀ e ∈ members, Legible e.2)
    (hfuel : 2 * (Json.quote k ++ ':' :: (v.chars ++ Json.membersTail members)).length ≤ fuel) :
    readMembers fuel (Json.quote k ++ ':' :: (v.chars ++ (Json.membersTail members ++ rest))) =
      some ((some k, v.document) :: Json.namedDocuments members, rest) := by
  induction members generalizing k v fuel with
  | nil =>
    simp only [List.length_append, List.length_cons] at hfuel
    obtain ⟨fuel, rfl⟩ := Nat.exists_eq_add_one_of_ne_zero (show fuel ≠ 0 by omega)
    exact readMembers_last (hv (by omega) (endsNumber_membersTail [] rest))
  | cons e members ih =>
    obtain ⟨l, x⟩ := e
    obtain ⟨hx, hrest⟩ := List.forall_mem_cons.1 hmembers
    simp only [List.length_append, Json.membersTail, List.length_cons] at hfuel
    obtain ⟨fuel, rfl⟩ := Nat.exists_eq_add_one_of_ne_zero (show fuel ≠ 0 by omega)
    have hmore : readMembers fuel (Json.quote l ++ ':' :: (x.chars ++ (Json.membersTail members ++ rest))) = _ :=
      ih hx hrest (by simp only [List.length_append, List.length_cons]; omega)
    have htail : Json.membersTail ((l, x) :: members) ++ rest =
        ',' :: (Json.quote l ++ ':' :: (x.chars ++ (Json.membersTail members ++ rest))) := by
      simp [Json.membersTail]
    have hvalue : readValue fuel (v.chars ++ (Json.membersTail ((l, x) :: members) ++ rest)) = _ :=
      hv (by omega) (endsNumber_membersTail ((l, x) :: members) rest)
    rw [htail] at hvalue ⊢
    rw [readMembers_more hvalue, hmore]
    rfl

theorem legible_string (s : String) : Legible (.string s) := by
  intro fuel rest hfuel _
  obtain ⟨text, htext, hread⟩ := quote_eq_cons s rest
  obtain ⟨fuel, rfl, -⟩ := exists_fuel hfuel
  change readValue (fuel + 1) (Json.quote s ++ rest) = _
  rw [htext, readValue, skipBlanks_cons (by decide)]
  simp only [hread]
  rfl

theorem legible_array {v : Json} {items : List Json} (hv : v.Whole) (h : ∀ x ∈ v :: items, Legible x) :
    Legible (.array (v :: items)) := by
  intro fuel rest hfuel _
  obtain ⟨fuel, rfl, hroom⟩ := exists_fuel hfuel
  obtain ⟨hread, hitems⟩ := List.forall_mem_cons.1 h
  have hall : readItems fuel (v.chars ++ (Json.itemsTail items ++ rest)) = _ := readItems_chars hread hitems hroom
  obtain ⟨c, cs, hcs, hblank, hend⟩ := Json.chars_eq_cons hv
  change readValue (fuel + 1) ('[' :: (v.chars ++ Json.itemsTail items ++ rest)) = _
  rw [List.append_assoc]
  rw [hcs, List.cons_append] at hall ⊢
  rw [readValue, skipBlanks_cons (by decide)]
  simp only [skipBlanks_cons hblank]
  split
  · next he => exact absurd (List.cons.inj he).1 hend
  · rw [hall]
    rfl

theorem legible_object {e : String × Json} {members : List (String × Json)} (h : ∀ x ∈ e :: members, Legible x.2) :
    Legible (.object (e :: members)) := by
  intro fuel rest hfuel _
  obtain ⟨k, v⟩ := e
  obtain ⟨fuel, rfl, hroom⟩ := exists_fuel hfuel
  obtain ⟨hread, hmembers⟩ := List.forall_mem_cons.1 h
  have hall : readMembers fuel (Json.quote k ++ ':' :: (v.chars ++ (Json.membersTail members ++ rest))) = _ :=
    readMembers_chars hread hmembers hroom
  obtain ⟨text, htext, -⟩ := quote_eq_cons k (':' :: (v.chars ++ (Json.membersTail members ++ rest)))
  rw [htext] at hall
  have hsame : (Json.object ((k, v) :: members)).chars ++ rest = '{' :: '"' :: text := by
    rw [← htext]
    simp [Json.chars]
  rw [hsame, readValue, skipBlanks_cons (by decide)]
  simp only [skipBlanks_cons (show isBlank '"' = false by decide)]
  change (readMembers fuel ('"' :: text)).map (fun read => (Document.object read.1, read.2)) = _
  rw [hall]
  rfl

theorem legible_of_whole {v : Json} (h : v.Whole) : Legible v := by
  induction h with
  | null =>
    intro fuel rest hfuel _
    obtain ⟨fuel, rfl, -⟩ := exists_fuel hfuel
    rfl
  | bool b =>
    intro fuel rest hfuel _
    cases b <;> obtain ⟨fuel, rfl, -⟩ := exists_fuel hfuel <;> rfl
  | @number i =>
    intro fuel rest hfuel hrest
    obtain ⟨c, cs, hcs, hc⟩ := integerText_eq_cons i
    have hread := readNumeral_integerText i hrest
    change 2 * (Json.integerText i).length ≤ fuel at hfuel
    change readValue fuel (Json.integerText i ++ rest) = _
    rw [hcs] at hread hfuel ⊢
    obtain ⟨fuel, rfl, -⟩ := exists_fuel hfuel
    rw [List.cons_append, readValue_numeral hc, ← List.cons_append, hread]
    rfl
  | string s => exact legible_string s
  | @array items each ih =>
    cases items with
    | nil =>
      intro fuel rest hfuel _
      obtain ⟨fuel, rfl, -⟩ := exists_fuel hfuel
      rfl
    | cons v items => exact legible_array (each v List.mem_cons_self) ih
  | @object members each ih =>
    cases members with
    | nil =>
      intro fuel rest hfuel _
      obtain ⟨fuel, rfl, -⟩ := exists_fuel hfuel
      rfl
    | cons e members => exact legible_object ih

/-- A text that was printed says what was printed. -/
theorem parse_render {v : Json} (h : v.Whole) : parse v.render = some v.document := by
  unfold parse parseChars Json.render
  rw [String.toList_ofList]
  have hread : readValue (2 * v.chars.length + 2) (v.chars ++ []) = some (v.document, []) :=
    legible_of_whole h (by omega) nofun
  rw [List.append_nil] at hread
  rw [hread]
  rfl

end Document

end CalcCycle
