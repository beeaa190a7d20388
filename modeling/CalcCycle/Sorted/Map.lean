import CalcCycle.Sorted.Key

/-! Finite maps kept as a list of entries in strictly increasing key order, so two maps with the
same content are equal, and the order of maps is the lexicographic order of their entries. -/

namespace CalcCycle

structure SortedMap (κ ν : Type) [Ord κ] where
  entries : List (κ × ν)
  increasing : entries.Pairwise fun a b => compare a.1 b.1 = .lt
  deriving DecidableEq

namespace SortedMap

section Entries
variable {κ ν : Type} [Ord κ]

/-- A new key goes in front of the first greater one; a present key gets the new value. -/
def insertEntry (k : κ) (v : ν) : List (κ × ν) → List (κ × ν)
  | [] => [(k, v)]
  | e :: rest =>
    match compare k e.1 with
    | .lt => (k, v) :: e :: rest
    | .eq => (k, v) :: rest
    | .gt => e :: insertEntry k v rest

def lookup (k : κ) : List (κ × ν) → Option ν
  | [] => none
  | e :: rest => if compare k e.1 = .eq then some e.2 else lookup k rest

theorem mem_insertEntry {k : κ} {v : ν} {x : κ × ν} {l : List (κ × ν)}
    (h : x ∈ insertEntry k v l) : x = (k, v) ∨ x ∈ l := by
  induction l with
  | nil => simpa [insertEntry] using h
  | cons e rest ih =>
    rw [insertEntry] at h
    split at h <;> simp only [List.mem_cons] at h ⊢
    · exact h
    · exact h.imp_right Or.inr
    · rcases h with h | h
      · exact Or.inr (Or.inl h)
      · exact (ih h).imp_right Or.inr

theorem increasing_insertEntry [Std.TransOrd κ] (k : κ) (v : ν) {l : List (κ × ν)}
    (h : l.Pairwise fun a b => compare a.1 b.1 = .lt) :
    (insertEntry k v l).Pairwise fun a b => compare a.1 b.1 = .lt := by
  induction l with
  | nil => simp [insertEntry]
  | cons e rest ih =>
    obtain ⟨he, hr⟩ := List.pairwise_cons.1 h
    rw [insertEntry]
    split
    · next hk =>
      refine List.pairwise_cons.2 ⟨fun x hx => ?_, h⟩
      rcases List.mem_cons.1 hx with rfl | hx
      · exact hk
      · exact Std.TransCmp.lt_trans hk (he x hx)
    · next hk =>
      exact List.pairwise_cons.2 ⟨fun x hx => Std.TransCmp.lt_of_eq_of_lt hk (he x hx), hr⟩
    · next hk =>
      refine List.pairwise_cons.2 ⟨fun x hx => ?_, ih hr⟩
      rcases mem_insertEntry hx with rfl | hx
      · exact Std.OrientedCmp.gt_iff_lt.1 hk
      · exact he x hx

end Entries

section Operations
variable {κ ν : Type} [Ord κ]

theorem ext_entries {a b : SortedMap κ ν} (h : a.entries = b.entries) : a = b := by
  cases a; cases b; simp_all

def empty : SortedMap κ ν := ⟨[], .nil⟩

instance : Inhabited (SortedMap κ ν) := ⟨empty⟩

def get? (m : SortedMap κ ν) (k : κ) : Option ν := lookup k m.entries

def contains (m : SortedMap κ ν) (k : κ) : Bool := (m.get? k).isSome

def keys (m : SortedMap κ ν) : List κ := m.entries.map (·.1)

def values (m : SortedMap κ ν) : List ν := m.entries.map (·.2)

def size (m : SortedMap κ ν) : Nat := m.entries.length

def isEmpty (m : SortedMap κ ν) : Bool := m.entries.isEmpty

def filter (m : SortedMap κ ν) (p : κ → ν → Bool) : SortedMap κ ν :=
  ⟨m.entries.filter fun e => p e.1 e.2, m.increasing.filter _⟩

def erase (m : SortedMap κ ν) (k : κ) : SortedMap κ ν := m.filter fun k' _ => compare k k' != .eq

/-- The entry of the least key that passes the test. -/
def find? (m : SortedMap κ ν) (p : κ → ν → Bool) : Option (κ × ν) :=
  m.entries.find? fun e => p e.1 e.2

variable [Std.TransOrd κ]

def insert (m : SortedMap κ ν) (k : κ) (v : ν) : SortedMap κ ν :=
  ⟨insertEntry k v m.entries, increasing_insertEntry k v m.increasing⟩

/-- Of several entries with one key the last counts. -/
def ofList (l : List (κ × ν)) : SortedMap κ ν := l.foldl (fun m e => m.insert e.1 e.2) empty

end Operations

section Order
variable {κ ν : Type} [Ord κ] [Ord ν]

local instance entryOrd : Ord (κ × ν) := lexOrd

instance : Ord (SortedMap κ ν) := ⟨compareOn entries⟩

instance [Std.TransOrd κ] [Std.TransOrd ν] : Std.TransOrd (SortedMap κ ν) :=
  inferInstanceAs (Std.TransCmp (compareOn entries))

instance [Std.TransOrd κ] [Std.LawfulEqOrd κ] [Std.TransOrd ν] [Std.LawfulEqOrd ν] :
    Std.LawfulEqOrd (SortedMap κ ν) := lawfulEqCmp_compareOn ext_entries

end Order

section Laws
variable {κ ν : Type} [Ord κ]

@[simp] theorem get?_empty (k : κ) : (empty : SortedMap κ ν).get? k = none := rfl

variable [Std.LawfulEqOrd κ] [DecidableEq κ]

theorem lookup_insertEntry (k k' : κ) (v : ν) (l : List (κ × ν)) :
    lookup k' (insertEntry k v l) = if k' = k then some v else lookup k' l := by
  induction l with
  | nil => simp [insertEntry, lookup, Std.LawfulEqCmp.compare_eq_iff_eq]
  | cons e rest ih =>
    rw [insertEntry]
    split
    · simp [lookup, Std.LawfulEqCmp.compare_eq_iff_eq]
    · next hk =>
      obtain rfl := Std.LawfulEqCmp.eq_of_compare hk
      by_cases h : k' = e.1 <;> simp [lookup, Std.LawfulEqCmp.compare_eq_iff_eq, h]
    · next hk =>
      have hne : e.1 ≠ k := by rintro rfl; simp at hk
      by_cases h : k' = e.1
      · subst h; simp [lookup, hne]
      · simp [lookup, Std.LawfulEqCmp.compare_eq_iff_eq, h, ih]

theorem get?_insert [Std.TransOrd κ] (m : SortedMap κ ν) (k k' : κ) (v : ν) :
    (m.insert k v).get? k' = if k' = k then some v else m.get? k' :=
  lookup_insertEntry k k' v m.entries

end Laws

end SortedMap

end CalcCycle
