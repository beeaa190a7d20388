import CalcCycle.Json.Decode
import CalcCycle.Proofs.Json.Document
import CalcCycle.Proofs.Sorted

/-! Typed values are read back from the JSON values they are written as, as long as these do not nest too deep
for the reader. A reader of a list, of a map or of a record does so if the readers of its parts do. -/

namespace CalcCycle

namespace Json

mutual
/-- How deep arrays and objects nest. -/
def depth : Json → Nat
  | array items => itemsDepth items + 1
  | object members => membersDepth members + 1
  | _ => 0

def itemsDepth : List Json → Nat
  | [] => 0
  | v :: rest => max (depth v) (itemsDepth rest)

def membersDepth : List (String × Json) → Nat
  | [] => 0
  | (_, v) :: rest => max (depth v) (membersDepth rest)
end

theorem depth_le_itemsDepth {v : Json} {items : List Json} (h : v ∈ items) : v.depth ≤ itemsDepth items := by
  induction items with
  | nil => cases h
  | cons x rest ih =>
    rw [itemsDepth]
    rcases List.mem_cons.1 h with rfl | h
    · exact Nat.le_max_left _ _
    · exact Nat.le_trans (ih h) (Nat.le_max_right _ _)

theorem depth_le_membersDepth {e : String × Json} {members : List (String × Json)} (h : e ∈ members) :
    e.2.depth ≤ membersDepth members := by
  induction members with
  | nil => cases h
  | cons x rest ih =>
    rw [membersDepth]
    rcases List.mem_cons.1 h with rfl | h
    · exact Nat.le_max_left _ _
    · exact Nat.le_trans (ih h) (Nat.le_max_right _ _)

/-- The members of every object in the value are in order of their names, and no name is there twice. -/
inductive Sorted : Json → Prop
  | null : Sorted .null
  | bool (b : Bool) : Sorted (.bool b)
  | number (n : JsonNumber) : Sorted (.number n)
  | string (s : String) : Sorted (.string s)
  | array {items : List Json} (each : ∀ v ∈ items, Sorted v) : Sorted (.array items)
  | object {members : List (String × Json)} (each : ∀ e ∈ members, Sorted e.2)
    (increasing : members.Pairwise fun a b => compare a.1 b.1 = .lt) : Sorted (.object members)

end Json

namespace Reader
variable {α β : Type}

/-- The reader reads the value back from the JSON value that it is written as. -/
def Reads (r : Reader α) (v : Json) (a : α) : Prop := ∀ l, v.depth < l → r l v.document = some a

theorem enter_of_lt {n l : Nat} (h : n + 1 < l) : enter l = some (l - 1) ∧ n < l - 1 := by
  unfold enter
  rw [if_neg (by omega)]
  exact ⟨rfl, by omega⟩

/-- A text is read back if it nests no deeper than readers may enter. -/
theorem Reads.read {r : Reader α} {v : Json} {a : α} (h : r.Reads v a) (hv : v.Whole) (hdepth : v.depth ≤ 127) :
    r.read v.render = some a := by
  unfold Reader.read
  rw [Document.parse_render hv]
  exact h nestingLimit (Nat.lt_succ_of_le hdepth)

theorem Reads.map {r : Reader α} {v : Json} {a : α} (h : r.Reads v a) (f : α → β) :
    Reads (fun l d => (r l d).map f) v (f a) :=
  fun l hl => congrArg (Option.map f) (h l hl)

theorem Reads.bind {r : Reader α} {v : Json} {a : α} {b : β} {f : α → Option β} (h : r.Reads v a)
    (hf : f a = some b) : Reads (fun l d => (r l d).bind f) v b := by
  intro l hl
  change (r l v.document).bind f = some b
  rw [h l hl, Option.bind_some, hf]

/-! ### Scalars -/

theorem string_reads (s : String) : string.Reads (.string s) s := fun _ _ => rfl

theorem integer_reads {i : Int} (h : -(pow2 63 : Int) ≤ i ∧ i < pow2 64) : integer.Reads (.number (.integer i)) i := by
  intro l _
  simp [integer, Json.document, Json.numeral, Numeral.value?_ofInt h]

/-- What fits 64 bits with a sign fits them with or without one. -/
theorem lt_pow2_of_signed {i : Int} (h : i < pow2 63) : i < pow2 64 :=
  Int.lt_trans h (by decide)

theorem signed64_reads {i : Int} (h : -(pow2 63 : Int) ≤ i ∧ i < pow2 63) :
    signed64.Reads (.number (.integer i)) i := by
  intro l hl
  unfold signed64
  rw [integer_reads ⟨h.1, lt_pow2_of_signed h.2⟩ l hl]
  exact if_pos h.2

/-! ### Containers -/

theorem mapM_map_some {γ : Type} {f : β → Option γ} {g : γ → β} {l : List γ} (h : ∀ a ∈ l, f (g a) = some a) :
    (l.map g).mapM f = some l := by
  induction l with
  | nil => rfl
  | cons a rest ih =>
    obtain ⟨ha, hrest⟩ := List.forall_mem_cons.1 h
    rw [List.map_cons, List.mapM_cons, ha, ih hrest]
    rfl

theorem list_reads {item : Reader α} {write : α → Json} {as : List α} (h : ∀ a ∈ as, item.Reads (write a) a) :
    (list item).Reads (.array (as.map write)) as := by
  intro l hl
  rw [Json.depth] at hl
  obtain ⟨henter, hlevels⟩ := enter_of_lt hl
  simp only [list, Json.document, henter, Option.bind_eq_bind, Option.bind_some]
  rw [Json.documents_eq_map, List.map_map]
  refine mapM_map_some fun a ha => h a ha _ ?_
  exact Nat.lt_of_le_of_lt (Json.depth_le_itemsDepth (List.mem_map_of_mem ha)) hlevels

theorem map_reads {value : Reader α} {write : α → Json} {m : SortedMap String α}
    (h : ∀ e ∈ m.entries, value.Reads (write e.2) e.2) :
    (map value).Reads (.object (m.entries.map fun e => (e.1, write e.2))) m := by
  intro l hl
  rw [Json.depth] at hl
  obtain ⟨henter, hlevels⟩ := enter_of_lt hl
  simp only [map, Json.document, henter, Option.bind_eq_bind, Option.bind_some, Json.namedDocuments_eq_map,
    List.map_map]
  rw [mapM_map_some (l := m.entries)]
  · exact congrArg some (SortedMap.ofList_entries m)
  · intro e he
    have hmem : (e.1, write e.2) ∈ m.entries.map fun e : String × α => (e.1, write e.2) :=
      List.mem_map.2 ⟨e, he, rfl⟩
    have hvalue := h e he (l - 1) (Nat.lt_of_le_of_lt (Json.depth_le_membersDepth hmem) hlevels)
    simp [hvalue]

/-! ### Records -/

theorem findIdx?_field {front back : List String} {name : String} (h : name ∉ front) :
    (front ++ name :: back).findIdx? (· == name) = some front.length := by
  have hfront : front.findIdx? (· == name) = none := by
    rw [List.findIdx?_eq_none_iff]
    intro k hk
    simpa using fun he : k = name => h (he ▸ hk)
  rw [List.findIdx?_append, hfront, List.findIdx?_cons]
  simp

/-- Members that come in the order of the fields fill their slots one after the other. -/
theorem foldlM_placeMember (front : List String) {fields : List String} (before : List Document) {vs : List Json}
    (hfields : (front ++ fields).Nodup) (hbefore : before.length = front.length)
    (hlength : vs.length = fields.length) :
    (Json.namedDocuments (fields.zip vs)).foldlM (placeMember (front ++ fields))
      (before.map some ++ fields.map fun _ => none) = some (before.map some ++ vs.map fun v => some v.document) := by
  induction fields generalizing front before vs with
  | nil =>
    obtain rfl := List.length_eq_zero_iff.1 hlength
    rfl
  | cons name fields ih =>
    cases vs with
    | nil => cases hlength
    | cons v vs =>
      have hname : name ∉ front := fun hmem =>
        (List.nodup_append.1 hfields).2.2 name hmem name List.mem_cons_self rfl
      have hplace : placeMember (front ++ name :: fields)
          (before.map some ++ (name :: fields).map fun _ => none) (some name, v.document) =
          some ((before ++ [v.document]).map some ++ fields.map fun _ => none) := by
        unfold placeMember
        simp only [Option.bind_eq_bind, Option.bind_some, findIdx?_field hname, ← hbefore]
        simp
      have hmore := ih (front ++ [name]) (before ++ [v.document])
        (by rwa [List.append_assoc, List.singleton_append])
        (by rw [List.length_append, List.length_append, hbefore]; rfl) (Nat.succ.inj hlength)
      rw [List.append_assoc, List.singleton_append] at hmore
      rw [List.zip_cons_cons, Json.namedDocuments, List.foldlM_cons, hplace]
      simpa using hmore

/-- The parts of a record that has all its fields. -/
def Parts.ofValues (levels : Nat) (vs : List Json) : Parts := ⟨true, levels, vs.map fun v => some v.document⟩

/-- A record has its parts at the places of the fields. It is read back if its parts put together are what was
written. -/
theorem record_reads (fields : List String) (vs : List Json) {build : Parts → Option α} {a : α}
    (hfields : fields.Nodup) (hlength : vs.length = fields.length)
    (hbuild : ∀ levels, (∀ v ∈ vs, v.depth < levels) → build (.ofValues levels vs) = some a) :
    Reads (fun l d => (parts fields l d).bind build) (.object (fields.zip vs)) a := by
  intro l hl
  rw [Json.depth] at hl
  obtain ⟨henter, hlevels⟩ := enter_of_lt hl
  have hplaced := foldlM_placeMember [] [] hfields rfl hlength
  simp only [List.nil_append, List.map_nil] at hplaced
  simp only [parts, Json.document, henter, hplaced, Option.bind_eq_bind, Option.bind_some]
  refine hbuild (l - 1) fun v hv => ?_
  obtain ⟨i, hi, rfl⟩ := List.getElem_of_mem hv
  have hfield : i < fields.length := hlength ▸ hi
  have hmem : (fields[i], vs[i]) ∈ fields.zip vs := by
    rw [← List.getElem_zip (h := by rw [List.length_zip]; omega)]
    exact List.getElem_mem _
  exact Nat.lt_of_le_of_lt (Json.depth_le_membersDepth hmem) hlevels

section
variable {levels : Nat} {vs : List Json} {v : Json} {r : Reader α} {a : α}

theorem Parts.slot_ofValues (levels : Nat) {i : Nat} (hv : vs[i]? = some v) :
    (ofValues levels vs).slot i = some v.document := by
  rw [slot, ofValues, List.getElem?_map, hv]
  rfl

theorem Parts.required_ofValues (i : Nat) (hr : r.Reads v a) (hv : vs[i]? = some v)
    (hlevels : ∀ v ∈ vs, v.depth < levels) : (ofValues levels vs).required i r = some a := by
  unfold required
  rw [slot_ofValues levels hv]
  exact hr _ (hlevels v (List.mem_of_getElem? hv))

theorem Parts.withDefault_ofValues (i : Nat) (dflt : α) (hr : r.Reads v a) (hv : vs[i]? = some v)
    (hlevels : ∀ v ∈ vs, v.depth < levels) : (ofValues levels vs).withDefault i dflt r = some a := by
  unfold withDefault
  rw [slot_ofValues levels hv]
  exact hr _ (hlevels v (List.mem_of_getElem? hv))

end

/-! ### Alternatives -/

theorem alternative_tagged {name : String} {v : Json} {l : Nat} (hl : (Json.tagged name v).depth < l) :
    alternative l (Json.tagged name v).document = some (name, l - 1, some v.document) ∧ v.depth < l - 1 := by
  have hdepth : (Json.tagged name v).depth = v.depth + 1 := by
    simp [Json.tagged, Json.depth, Json.membersDepth]
  rw [hdepth] at hl
  obtain ⟨henter, hlevels⟩ := enter_of_lt hl
  refine ⟨?_, hlevels⟩
  simp only [Json.tagged, Json.document, Json.namedDocuments, alternative, henter, Option.bind_eq_bind,
    Option.bind_some]
  rfl

theorem taggedAlternative_reads {readers : List (String × Reader α)} {name : String} {r : Reader α} {v : Json}
    {a : α} (hr : r.Reads v a) (hname : choose readers name = some r) :
    (taggedAlternative readers).Reads (Json.tagged name v) a := by
  intro l hl
  obtain ⟨halternative, hlevels⟩ := alternative_tagged hl
  unfold taggedAlternative
  simp only [halternative, hname, Option.bind_eq_bind, Option.bind_some]
  exact hr _ hlevels

theorem plainAlternative_reads {names : List (String × α)} {name : String} {a : α}
    (hname : choose names name = some a) : (plainAlternative names).Reads (.string name) a := by
  intro l _
  simp only [plainAlternative, alternative, Json.document, hname, Option.bind_eq_bind, Option.bind_some]
  rfl

/-! ### Any JSON value -/

theorem jsonItems_documents {l : Nat} {items : List Json} (h : ∀ v ∈ items, json l v.document = some v) :
    jsonItems l (Json.documents items) = some items := by
  induction items with
  | nil => rfl
  | cons v rest ih =>
    obtain ⟨hv, hrest⟩ := List.forall_mem_cons.1 h
    rw [Json.documents, jsonItems, hv, ih hrest]
    rfl

theorem jsonMembers_namedDocuments {l : Nat} {members : List (String × Json)}
    (h : ∀ e ∈ members, json l e.2.document = some e.2) :
    jsonMembers l (Json.namedDocuments members) = some members := by
  induction members with
  | nil => rfl
  | cons e rest ih =>
    obtain ⟨he, hrest⟩ := List.forall_mem_cons.1 h
    rw [Json.namedDocuments, jsonMembers, he, ih hrest]
    rfl

/-- Any value whose objects are sorted is read back. -/
theorem json_reads {v : Json} (hwhole : v.Whole) (hsorted : v.Sorted) : json.Reads v v := by
  induction hwhole with
  | null => exact fun _ _ => rfl
  | bool b => exact fun _ _ => rfl
  | number fits =>
    intro l _
    simp [Json.document, Json.numeral, json, Numeral.value?_ofInt fits]
  | string s => exact fun _ _ => rfl
  | @array items each ih =>
    cases hsorted with
    | array sorted =>
      intro l hl
      rw [Json.depth] at hl
      obtain ⟨henter, hlevels⟩ := enter_of_lt hl
      have hitems := jsonItems_documents (l := l - 1) fun v hv =>
        ih v hv (sorted v hv) _ (Nat.lt_of_le_of_lt (Json.depth_le_itemsDepth hv) hlevels)
      simp only [Json.document, json, henter, hitems, Option.bind_eq_bind, Option.bind_some]
      rfl
  | @object members each ih =>
    cases hsorted with
    | object sorted increasing =>
      intro l hl
      rw [Json.depth] at hl
      obtain ⟨henter, hlevels⟩ := enter_of_lt hl
      have hmembers := jsonMembers_namedDocuments (l := l - 1) fun e he =>
        ih e he (sorted e he) _ (Nat.lt_of_le_of_lt (Json.depth_le_membersDepth he) hlevels)
      simp only [Json.document, json, henter, hmembers, Option.bind_eq_bind, Option.bind_some,
        SortedMap.entries_ofList increasing]
      rfl

end Reader

end CalcCycle
