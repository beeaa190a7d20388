import CalcCycle.Sorted.Map
import CalcCycle.Sorted.Set
import Mathlib.Tactic.SplitIfs

/-! Sorted maps and sets by their content: maps with the same values for all keys are equal, a list in order is the
list of entries of its map, and the members of a set built from a list are those of the list. -/

namespace CalcCycle

namespace SortedMap
variable {κ ν : Type} [Ord κ] [Std.LawfulEqOrd κ] [DecidableEq κ]

theorem lookup_cons (k : κ) (e : κ × ν) (l : List (κ × ν)) :
    lookup k (e :: l) = if k = e.1 then some e.2 else lookup k l := by
  simp only [lookup, Std.LawfulEqCmp.compare_eq_iff_eq]

/-- A key below all keys of the list is not in it. -/
theorem lookup_eq_none {k : κ} {l : List (κ × ν)} (h : ∀ e ∈ l, compare k e.1 = .lt) : lookup k l = none := by
  induction l with
  | nil => rfl
  | cons e rest ih =>
    obtain ⟨he, hrest⟩ := List.forall_mem_cons.1 h
    have hne : k ≠ e.1 := by
      rintro rfl
      simp at he
    rw [lookup_cons, if_neg hne, ih hrest]

/-- Where the keys increase, every entry is found under its key. -/
theorem lookup_of_mem {l : List (κ × ν)} (hl : l.Pairwise fun a b => compare a.1 b.1 = .lt) {e : κ × ν}
    (he : e ∈ l) : lookup e.1 l = some e.2 := by
  induction l with
  | nil => simp at he
  | cons a rest ih =>
    obtain ⟨ha, hrest⟩ := List.pairwise_cons.1 hl
    rw [lookup_cons]
    rcases List.mem_cons.1 he with rfl | he
    · rw [if_pos rfl]
    · have hne : e.1 ≠ a.1 := by
        intro heq
        have hlt := ha e he
        rw [heq] at hlt
        simp at hlt
      rw [if_neg hne, ih hrest he]

theorem mem_of_lookup {l : List (κ × ν)} {k : κ} {v : ν} (h : lookup k l = some v) : (k, v) ∈ l := by
  induction l with
  | nil => cases h
  | cons a rest ih =>
    rw [lookup_cons] at h
    split_ifs at h with hk
    · cases h
      simp [hk]
    · exact List.mem_cons_of_mem _ (ih h)

theorem mem_entries_iff {m : SortedMap κ ν} {e : κ × ν} : e ∈ m.entries ↔ m.get? e.1 = some e.2 :=
  ⟨lookup_of_mem m.increasing, mem_of_lookup⟩

theorem get?_erase_of_ne {m : SortedMap κ ν} {k k' : κ} (h : k' ≠ k) : (m.erase k).get? k' = m.get? k' := by
  change lookup k' (m.entries.filter fun e => compare k e.1 != .eq) = lookup k' m.entries
  induction m.entries with
  | nil => rfl
  | cons e rest ih =>
    by_cases he : k = e.1
    · rw [List.filter_cons_of_neg (by simp [← he]), ih, lookup_cons, if_neg (he ▸ h)]
    · have hkeep : compare k e.1 ≠ .eq := fun heq => he (Std.LawfulEqCmp.eq_of_compare heq)
      rw [List.filter_cons_of_pos (by simpa using hkeep), lookup_cons, lookup_cons, ih]

theorem get?_erase (m : SortedMap κ ν) (k k' : κ) :
    (m.erase k).get? k' = if k' = k then none else m.get? k' := by
  split_ifs with h
  · cases hv : (m.erase k).get? k' with
    | none => rfl
    | some v =>
      have hmem := (List.mem_filter.1 (mem_of_lookup hv)).2
      simp [h] at hmem
  · exact get?_erase_of_ne h

theorem mem_keys {m : SortedMap κ ν} {k : κ} : k ∈ m.keys ↔ ∃ v, m.get? k = some v := by
  unfold keys
  rw [List.mem_map]
  constructor
  · rintro ⟨e, he, rfl⟩
    exact ⟨e.2, mem_entries_iff.1 he⟩
  · rintro ⟨v, hv⟩
    exact ⟨(k, v), mem_of_lookup hv, rfl⟩

omit [DecidableEq κ] in
theorem nodup_keys (m : SortedMap κ ν) : m.keys.Nodup := by
  refine List.pairwise_map.2 (m.increasing.imp ?_)
  rintro a b hlt heq
  rw [heq] at hlt
  simp at hlt

theorem find?_eq_none_iff {m : SortedMap κ ν} {test : κ → ν → Bool} :
    m.find? test = none ↔ ∀ k v, m.get? k = some v → test k v = false := by
  unfold find?
  rw [List.find?_eq_none]
  constructor
  · intro h k v hget
    simpa using h (k, v) (mem_entries_iff.2 hget)
  · intro h e he
    simp [h e.1 e.2 (mem_entries_iff.1 he)]

variable [Std.TransOrd κ]

/-- A key below the first one is not in the list. -/
theorem lookup_of_lt {k : κ} {e : κ × ν} {l : List (κ × ν)}
    (hl : (e :: l).Pairwise fun a b => compare a.1 b.1 = .lt) (hk : compare k e.1 = .lt) :
    lookup k (e :: l) = none := by
  apply lookup_eq_none
  intro a ha
  rcases List.mem_cons.1 ha with rfl | ha
  · exact hk
  · exact Std.TransCmp.lt_trans hk ((List.pairwise_cons.1 hl).1 a ha)

theorem entries_unique {l l' : List (κ × ν)} (hl : l.Pairwise fun a b => compare a.1 b.1 = .lt)
    (hl' : l'.Pairwise fun a b => compare a.1 b.1 = .lt) (h : ∀ k, lookup k l = lookup k l') : l = l' := by
  induction l generalizing l' with
  | nil =>
    cases l' with
    | nil => rfl
    | cons e rest =>
      have he := h e.1
      rw [lookup_cons, if_pos rfl] at he
      cases he
  | cons a rest ih =>
    cases l' with
    | nil =>
      have ha := h a.1
      rw [lookup_cons, if_pos rfl] at ha
      cases ha
    | cons b rest' =>
      -- the lesser of the two least keys would be missing on the other side
      have hkey : a.1 = b.1 := by
        cases hc : compare a.1 b.1 with
        | eq => exact Std.LawfulEqCmp.eq_of_compare hc
        | lt =>
          have hnone := lookup_of_lt hl' hc
          rw [← h, lookup_cons, if_pos rfl] at hnone
          cases hnone
        | gt =>
          have hnone := lookup_of_lt hl (Std.OrientedCmp.gt_iff_lt.1 hc)
          rw [h, lookup_cons, if_pos rfl] at hnone
          cases hnone
      obtain ⟨ha, hrest⟩ := List.pairwise_cons.1 hl
      obtain ⟨hb, hrest'⟩ := List.pairwise_cons.1 hl'
      have hvalue : a.2 = b.2 := by
        have hk := h a.1
        rw [lookup_cons, lookup_cons, if_pos rfl, if_pos hkey] at hk
        exact Option.some.inj hk
      have hab : a = b := Prod.ext hkey hvalue
      subst hab
      refine congrArg (a :: ·) (ih hrest hrest' ?_)
      intro k
      by_cases hk : k = a.1
      · rw [hk, lookup_eq_none ha, lookup_eq_none hb]
      · have hcons := h k
        rwa [lookup_cons, lookup_cons, if_neg hk, if_neg hk] at hcons

theorem ext_get? {a b : SortedMap κ ν} (h : ∀ k, a.get? k = b.get? k) : a = b :=
  ext_entries (entries_unique a.increasing b.increasing h)

/-- The entry that is found has the least of the keys that pass the test. -/
theorem find?_eq_some_iff {m : SortedMap κ ν} {test : κ → ν → Bool} {k : κ} {v : ν} :
    m.find? test = some (k, v) ↔
      m.get? k = some v ∧ test k v = true ∧
        ∀ k' v', m.get? k' = some v' → test k' v' = true → (compare k k').isLE = true := by
  unfold find?
  constructor
  · intro h
    obtain ⟨hpass, before, after, hentries, hbefore⟩ := List.find?_eq_some_iff_append.1 h
    refine ⟨mem_entries_iff.1 (List.mem_of_find?_eq_some h), hpass, fun k' v' hget hpass' => ?_⟩
    have hmem : (k', v') ∈ m.entries := mem_entries_iff.2 hget
    have hincreasing := m.increasing
    rw [hentries] at hmem hincreasing
    rcases List.mem_append.1 hmem with hmem | hmem
    · -- what stands before the entry does not pass
      have hnot := hbefore _ hmem
      simp [hpass'] at hnot
    · rcases List.mem_cons.1 hmem with heq | hmem
      · cases heq
        simp
      · have hlt := (List.pairwise_cons.1 (List.pairwise_append.1 hincreasing).2.1).1 _ hmem
        rw [hlt]
        rfl
  · rintro ⟨hget, hpass, hleast⟩
    have hmem : (k, v) ∈ m.entries := mem_entries_iff.2 hget
    obtain ⟨before, after, hentries⟩ := List.append_of_mem hmem
    refine List.find?_eq_some_iff_append.2 ⟨hpass, before, after, hentries, fun e he => ?_⟩
    have hincreasing := m.increasing
    rw [hentries] at hincreasing
    have hlt : compare e.1 k = .lt :=
      (List.pairwise_append.1 hincreasing).2.2 e he (k, v) List.mem_cons_self
    have hstored : m.get? e.1 = some e.2 := by
      apply mem_entries_iff.1
      rw [hentries]
      exact List.mem_append_left _ he
    cases htest : test e.1 e.2 with
    | false => rfl
    | true =>
      have hle := hleast e.1 e.2 hstored htest
      rw [Std.OrientedCmp.gt_iff_lt.2 hlt] at hle
      cases hle

end SortedMap

namespace SortedMap
variable {κ ν : Type} [Ord κ] [Std.TransOrd κ]

theorem insertEntry_last {k : κ} {v : ν} {l : List (κ × ν)} (h : ∀ e ∈ l, compare e.1 k = .lt) :
    insertEntry k v l = l ++ [(k, v)] := by
  induction l with
  | nil => rfl
  | cons e rest ih =>
    obtain ⟨he, hrest⟩ := List.forall_mem_cons.1 h
    rw [insertEntry, Std.OrientedCmp.gt_iff_lt.2 he]
    exact congrArg (e :: ·) (ih hrest)

theorem entries_foldl_insert {l : List (κ × ν)} {m : SortedMap κ ν}
    (h : (m.entries ++ l).Pairwise fun a b => compare a.1 b.1 = .lt) :
    (l.foldl (fun m e => m.insert e.1 e.2) m).entries = m.entries ++ l := by
  induction l generalizing m with
  | nil => exact (List.append_nil _).symm
  | cons e rest ih =>
    have hlast : (m.insert e.1 e.2).entries = m.entries ++ [e] :=
      insertEntry_last fun x hx => (List.pairwise_append.1 h).2.2 x hx e List.mem_cons_self
    rw [List.append_cons] at h
    rw [List.foldl_cons, ih (by rwa [hlast]), hlast, List.append_assoc, List.singleton_append]

/-- A list that is in order is the list of entries of its map. -/
theorem entries_ofList {l : List (κ × ν)} (h : l.Pairwise fun a b => compare a.1 b.1 = .lt) :
    (ofList l).entries = l :=
  entries_foldl_insert (m := empty) h

theorem ofList_entries (m : SortedMap κ ν) : ofList m.entries = m := ext_entries (entries_ofList m.increasing)

end SortedMap

namespace SortedSet
variable {α : Type} [Ord α] [Std.TransOrd α] [Std.LawfulEqOrd α]

theorem mem_insertAll {s : SortedSet α} {l : List α} {a : α} : a ∈ s.insertAll l ↔ a ∈ l ∨ a ∈ s := by
  unfold insertAll
  induction l generalizing s with
  | nil => simp
  | cons b rest ih =>
    rw [List.foldl_cons, ih, mem_insert, List.mem_cons]
    simp only [or_left_comm, or_assoc]

omit [Std.TransOrd α] [Std.LawfulEqOrd α] in
theorem not_mem_empty {a : α} : a ∉ (empty : SortedSet α) := List.not_mem_nil

theorem mem_ofList {l : List α} {a : α} : a ∈ (ofList l) ↔ a ∈ l := by
  unfold ofList
  rw [mem_insertAll]
  exact or_iff_left not_mem_empty

omit [Std.TransOrd α] in
theorem contains_iff {s : SortedSet α} {a : α} : s.contains a = true ↔ a ∈ s := by
  unfold contains
  simp only [List.any_eq_true, beq_iff_eq, Std.LawfulEqCmp.compare_eq_iff_eq, exists_eq_right']
  rfl

omit [Std.TransOrd α] [Std.LawfulEqOrd α] in
theorem isEmpty_eq_false_iff {s : SortedSet α} : s.isEmpty = false ↔ ∃ a, a ∈ s := by
  unfold isEmpty
  rw [List.isEmpty_eq_false_iff_exists_mem]
  rfl

omit [Std.TransOrd α] in
/-- A set with a member has a least member. -/
theorem exists_least? {s : SortedSet α} {a : α} (h : a ∈ s) :
    ∃ b ∈ s, s.least? = some b ∧ (compare b a).isLE = true := by
  obtain ⟨elements, hincreasing⟩ := s
  cases elements with
  | nil => cases h
  | cons b rest =>
    refine ⟨b, List.mem_cons_self, rfl, ?_⟩
    rcases List.mem_cons.1 h with rfl | hmem
    · simp
    · rw [(List.pairwise_cons.1 hincreasing).1 a hmem]
      rfl

omit [Std.TransOrd α] in
theorem exists_least?_of_isEmpty {s : SortedSet α} (h : s.isEmpty = false) : ∃ b ∈ s, s.least? = some b := by
  obtain ⟨a, ha⟩ := isEmpty_eq_false_iff.1 h
  obtain ⟨b, hb, hleast, -⟩ := exists_least? ha
  exact ⟨b, hb, hleast⟩

end SortedSet

end CalcCycle
