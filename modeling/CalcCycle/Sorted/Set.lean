import CalcCycle.Sorted.Key

/-! Finite sets kept as a strictly increasing list of elements. -/

namespace CalcCycle

structure SortedSet (α : Type) [Ord α] where
  elements : List α
  increasing : elements.Pairwise fun a b => compare a b = .lt
  deriving DecidableEq

namespace SortedSet

section Elements
variable {α : Type} [Ord α]

def insertElement (a : α) : List α → List α
  | [] => [a]
  | b :: rest =>
    match compare a b with
    | .lt => a :: b :: rest
    | .eq => a :: rest
    | .gt => b :: insertElement a rest

theorem mem_insertElement {a x : α} {l : List α} (h : x ∈ insertElement a l) : x = a ∨ x ∈ l := by
  induction l with
  | nil => simpa [insertElement] using h
  | cons b rest ih =>
    rw [insertElement] at h
    split at h <;> simp only [List.mem_cons] at h ⊢
    · exact h
    · exact h.imp_right Or.inr
    · rcases h with h | h
      · exact Or.inr (Or.inl h)
      · exact (ih h).imp_right Or.inr

theorem increasing_insertElement [Std.TransOrd α] (a : α) {l : List α}
    (h : l.Pairwise fun a b => compare a b = .lt) :
    (insertElement a l).Pairwise fun a b => compare a b = .lt := by
  induction l with
  | nil => simp [insertElement]
  | cons b rest ih =>
    obtain ⟨hb, hr⟩ := List.pairwise_cons.1 h
    rw [insertElement]
    split
    · next ha =>
      refine List.pairwise_cons.2 ⟨fun x hx => ?_, h⟩
      rcases List.mem_cons.1 hx with rfl | hx
      · exact ha
      · exact Std.TransCmp.lt_trans ha (hb x hx)
    · next ha =>
      exact List.pairwise_cons.2 ⟨fun x hx => Std.TransCmp.lt_of_eq_of_lt ha (hb x hx), hr⟩
    · next ha =>
      refine List.pairwise_cons.2 ⟨fun x hx => ?_, ih hr⟩
      rcases mem_insertElement hx with rfl | hx
      · exact Std.OrientedCmp.gt_iff_lt.1 ha
      · exact hb x hx

end Elements

section Operations
variable {α : Type} [Ord α]

def empty : SortedSet α := ⟨[], .nil⟩

instance : Inhabited (SortedSet α) := ⟨empty⟩

def contains (s : SortedSet α) (a : α) : Bool := s.elements.any fun b => compare a b == .eq

def size (s : SortedSet α) : Nat := s.elements.length

def isEmpty (s : SortedSet α) : Bool := s.elements.isEmpty

def least? (s : SortedSet α) : Option α := s.elements.head?

instance : Membership α (SortedSet α) := ⟨fun s a => a ∈ s.elements⟩

variable [Std.TransOrd α]

def insert (s : SortedSet α) (a : α) : SortedSet α :=
  ⟨insertElement a s.elements, increasing_insertElement a s.increasing⟩

def insertAll (s : SortedSet α) (l : List α) : SortedSet α := l.foldl insert s

def ofList (l : List α) : SortedSet α := empty.insertAll l

end Operations

section Order
variable {α : Type} [Ord α]

instance : Ord (SortedSet α) := ⟨compareOn elements⟩

instance [Std.TransOrd α] : Std.TransOrd (SortedSet α) :=
  inferInstanceAs (Std.TransCmp (compareOn elements))

theorem ext_elements {a b : SortedSet α} (h : a.elements = b.elements) : a = b := by
  cases a; cases b; simp_all

instance [Std.TransOrd α] [Std.LawfulEqOrd α] : Std.LawfulEqOrd (SortedSet α) :=
  lawfulEqCmp_compareOn ext_elements

end Order

section Laws
variable {α : Type} [Ord α]

theorem mem_iff {a : α} {s : SortedSet α} : a ∈ s ↔ a ∈ s.elements := Iff.rfl

theorem mem_insertElement_iff [Std.LawfulEqOrd α] {a x : α} {l : List α} :
    x ∈ insertElement a l ↔ x = a ∨ x ∈ l := by
  refine ⟨mem_insertElement, fun h => ?_⟩
  induction l with
  | nil => simpa [insertElement] using h
  | cons b rest ih =>
    rw [insertElement]
    split
    · exact List.mem_cons.2 h
    · next hk =>
      obtain rfl := Std.LawfulEqCmp.eq_of_compare hk
      simpa using h
    · rcases h with h | h
      · exact List.mem_cons_of_mem _ (ih (.inl h))
      · rcases List.mem_cons.1 h with rfl | h
        · exact List.mem_cons_self
        · exact List.mem_cons_of_mem _ (ih (.inr h))

theorem mem_insert [Std.TransOrd α] [Std.LawfulEqOrd α] {a x : α} {s : SortedSet α} :
    x ∈ s.insert a ↔ x = a ∨ x ∈ s := mem_insertElement_iff

end Laws

end SortedSet

end CalcCycle
