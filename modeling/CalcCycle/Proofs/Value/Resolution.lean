import CalcCycle.Proofs.Sorted
import CalcCycle.Proofs.Text.Bytes
import CalcCycle.Value.Requirement
import Mathlib.Data.List.Forall2

/-! What the resolution of a requirement is worth. It satisfies the requirement unless a property is constrained
to an empty set: the resolution leaves that property out, and the requirement asks for it. Where it does
satisfy the requirement it comes before all others with the same properties that do, since at the first
property in which they differ it has the lesser value. Properties that a requirement does not name are nothing to it. -/

namespace CalcCycle

/-! ### The order of properties -/

namespace Properties

/-- The two agree up to a property of which the first has the value with the lesser bytes. -/
def Precedes (p q : Properties) : Prop :=
  ∃ front name v w back back', p.entries = front ++ (name, v) :: back ∧ q.entries = front ++ (name, w) :: back' ∧
    utf8 v < utf8 w

variable {p q : Properties}

theorem compare_of_precedes (h : p.Precedes q) : compare p q = .lt := by
  obtain ⟨front, name, v, w, back, back', hp, hq, hlt⟩ := h
  change List.compareLex (fun a b => (compare a.1 b.1).then (compare a.2 b.2)) p.entries q.entries = .lt
  rw [hp, hq]
  clear hp hq
  induction front with
  | nil =>
    rw [List.nil_append, List.nil_append, List.compareLex_cons_cons, Std.ReflOrd.compare_self,
      compare_eq_lt_iff_utf8.2 hlt]
    rfl
  | cons e rest ih =>
    rw [List.cons_append, List.cons_append, List.compareLex_cons_cons, ih, Std.ReflOrd.compare_self,
      Std.ReflOrd.compare_self]
    rfl

/-- Entries of the same names, of which none has a greater value in the first list, are the same or first differ
in a lesser value. -/
theorem exists_first_difference {l l' : List (String × String)}
    (h : List.Forall₂ (fun e e' => e.1 = e'.1 ∧ (compare e.2 e'.2).isLE = true) l l') :
    l = l' ∨ ∃ front name v w back back', l = front ++ (name, v) :: back ∧ l' = front ++ (name, w) :: back' ∧
      utf8 v < utf8 w := by
  induction h with
  | nil => exact .inl rfl
  | @cons e e' rest rest' hhead _ ih =>
    obtain ⟨name, v⟩ := e
    obtain ⟨name', w⟩ := e'
    obtain ⟨rfl, hle⟩ := hhead
    cases hc : compare v w with
    | lt => exact .inr ⟨[], name, v, w, rest, rest', rfl, rfl, compare_eq_lt_iff_utf8.1 hc⟩
    | eq =>
      obtain rfl := Std.LawfulEqCmp.eq_of_compare hc
      rcases ih with rfl | ⟨front, name', v', w', back, back', rfl, rfl, hlt⟩
      · exact .inl rfl
      · exact .inr ⟨(name, v) :: front, name', v', w', back, back', rfl, rfl, hlt⟩
    | gt =>
      simp only [hc] at hle
      cases hle

end Properties

namespace Constraints

/-! ### Offers -/

/-- The constraints after the offers, each of values for a property. -/
def acceptAll (c : Constraints) (offers : List (String × List String)) : Constraints :=
  offers.foldl (fun c e => c.accept e.1 e.2) c

/-- The property is constrained, and the value is acceptable for it. -/
def Allows (c : Constraints) (name value : String) : Prop := ∃ allowed, c.get? name = some allowed ∧ value ∈ allowed

variable {c : Constraints} {name value : String} {offers : List (String × List String)} {p : Properties}

theorem get?_accept (c : Constraints) (offered : String) (values : List String) (name : String) :
    (c.accept offered values).get? name =
      if name = offered then some (((c.get? offered).getD .empty).insertAll values) else c.get? name :=
  SortedMap.get?_insert _ _ _ _

theorem allows_accept {offered : String} {values : List String} :
    (c.accept offered values).Allows name value ↔ c.Allows name value ∨ name = offered ∧ value ∈ values := by
  unfold Allows
  rw [get?_accept]
  split_ifs with h
  · subst h
    cases c.get? name with
    | none => simp [SortedSet.mem_insertAll, SortedSet.not_mem_empty]
    | some allowed => simp [SortedSet.mem_insertAll, or_comm]
  · simp [h]

theorem contains_accept {offered : String} {values : List String} :
    (c.accept offered values).contains name = true ↔ c.contains name = true ∨ name = offered := by
  unfold SortedMap.contains
  rw [get?_accept]
  split_ifs with h <;> simp [h]

/-- A value is acceptable in the end if one of the offers of its property has it. -/
theorem allows_acceptAll : (c.acceptAll offers).Allows name value ↔
    c.Allows name value ∨ ∃ e ∈ offers, name = e.1 ∧ value ∈ e.2 := by
  unfold acceptAll
  induction offers generalizing c with
  | nil => simp
  | cons e rest ih =>
    rw [List.foldl_cons, ih, allows_accept, or_assoc]
    simp only [List.mem_cons, exists_eq_or_imp]

/-- A property is constrained in the end if there is an offer for it, be it empty. -/
theorem contains_acceptAll : (c.acceptAll offers).contains name = true ↔
    c.contains name = true ∨ ∃ e ∈ offers, name = e.1 := by
  unfold acceptAll
  induction offers generalizing c with
  | nil => simp
  | cons e rest ih =>
    rw [List.foldl_cons, ih, contains_accept, or_assoc]
    simp only [List.mem_cons, exists_eq_or_imp]

/-! ### Resolutions -/

theorem get?_resolve (c : Constraints) (name : String) :
    c.resolve.get? name = (c.get? name).bind SortedSet.least? := by
  refine Option.ext fun v => ?_
  rw [← SortedMap.mem_entries_iff (e := (name, v)), Option.bind_eq_some_iff]
  simp only [resolve, List.mem_filterMap, Option.map_eq_some_iff, Prod.mk.injEq]
  constructor
  · rintro ⟨⟨_, allowed⟩, hmem, v', hleast, rfl, rfl⟩
    exact ⟨allowed, SortedMap.mem_entries_iff.1 hmem, hleast⟩
  · rintro ⟨allowed, hget, hleast⟩
    exact ⟨(name, allowed), SortedMap.mem_entries_iff.2 hget, v, hleast, rfl, rfl⟩

theorem satisfiedBy_iff : c.satisfiedBy p = true ↔
    ∀ e ∈ c.entries, ∃ v, p.get? e.1 = some v ∧ (e.2.isEmpty = true ∨ v ∈ e.2) := by
  unfold satisfiedBy
  rw [List.all_eq_true]
  refine forall₂_congr fun e he => ?_
  obtain ⟨name, allowed⟩ := e
  dsimp only
  cases p.get? name with
  | none => simp
  | some v => simp [SortedSet.contains_iff]

/-- The resolution of constraints satisfies them exactly where they name acceptable values for each property. -/
theorem satisfiedBy_resolve_iff :
    c.satisfiedBy c.resolve = true ↔ ∀ e ∈ c.entries, e.2.isEmpty = false := by
  rw [satisfiedBy_iff]
  refine forall₂_congr fun e he => ?_
  rw [get?_resolve, SortedMap.mem_entries_iff.1 he, Option.bind_some]
  constructor
  · rintro ⟨v, hleast, -⟩
    exact SortedSet.isEmpty_eq_false_iff.2 ⟨v, List.mem_of_mem_head? hleast⟩
  · intro hsome
    obtain ⟨v, hv, hleast⟩ := SortedSet.exists_least?_of_isEmpty hsome
    exact ⟨v, hleast, .inr hv⟩

/-- Where each property has acceptable values, the resolution has all properties, with the least of them. -/
theorem forall₂_resolve {l : List (String × SortedSet String)} {l' : List (String × String)}
    (h : List.Forall₂ (fun e e' => e.1 = e'.1 ∧ e'.2 ∈ e.2) l l') :
    List.Forall₂ (fun e e' => e.1 = e'.1 ∧ (compare e.2 e'.2).isLE = true)
      (l.filterMap fun (name, allowed) => allowed.least?.map fun v => (name, v)) l' := by
  induction h with
  | nil => exact .nil
  | @cons e e' rest rest' hhead _ ih =>
    obtain ⟨name, allowed⟩ := e
    obtain ⟨w, -, hleast, hle⟩ := SortedSet.exists_least? (s := allowed) hhead.2
    simp only [List.filterMap_cons, hleast, Option.map_some]
    exact .cons ⟨hhead.1, hle⟩ ih

/-- What satisfies the constraints with no other properties has an acceptable value for each property in turn. -/
theorem forall₂_of_satisfied (hsome : ∀ e ∈ c.entries, e.2.isEmpty = false) (hp : c.satisfiedBy p = true)
    (hkeys : p.keys = c.keys) : List.Forall₂ (fun e e' => e.1 = e'.1 ∧ e'.2 ∈ e.2) c.entries p.entries := by
  have hnames : List.Forall₂ (fun e e' => e.1 = e'.1) c.entries p.entries := by
    rw [← List.forall₂_map_right_iff, ← List.forall₂_map_left_iff, List.forall₂_eq_eq_eq]
    exact hkeys.symm
  obtain ⟨hlength, hzip⟩ := List.forall₂_iff_zip.1 hnames
  refine List.forall₂_iff_zip.2 ⟨hlength, fun {e e'} hmem => ?_⟩
  have heq := hzip hmem
  obtain ⟨hc, hp'⟩ := List.of_mem_zip hmem
  obtain ⟨v, hv, hallowed⟩ := satisfiedBy_iff.1 hp e hc
  rw [heq, SortedMap.mem_entries_iff.1 hp'] at hv
  cases hv
  refine ⟨heq, hallowed.resolve_left ?_⟩
  rw [hsome e hc]
  exact Bool.false_ne_true

theorem resolve_least (hsome : ∀ e ∈ c.entries, e.2.isEmpty = false) (hp : c.satisfiedBy p = true)
    (hkeys : p.keys = c.keys) : p = c.resolve ∨ c.resolve.Precedes p := by
  rcases Properties.exists_first_difference (forall₂_resolve (forall₂_of_satisfied hsome hp hkeys)) with heq | hdiffers
  · exact .inl (SortedMap.ext_entries heq.symm)
  · exact .inr hdiffers

theorem keys_resolve (hsome : ∀ e ∈ c.entries, e.2.isEmpty = false) : c.resolve.keys = c.keys := by
  have h : ∀ l : List (String × SortedSet String), (∀ e ∈ l, e.2.isEmpty = false) →
      (l.filterMap fun (name, allowed) => allowed.least?.map fun v => (name, v)).map (·.1) = l.map (·.1) := by
    intro l
    induction l with
    | nil => exact fun _ => rfl
    | cons e rest ih =>
      intro hl
      obtain ⟨name, allowed⟩ := e
      obtain ⟨he, hrest⟩ := List.forall_mem_cons.1 hl
      obtain ⟨v, -, hleast⟩ := SortedSet.exists_least?_of_isEmpty (s := allowed) he
      simp only [List.filterMap_cons, hleast, Option.map_some, List.map_cons, ih hrest]
  exact h c.entries hsome

/-- Another property does not matter to what satisfies the constraints. -/
theorem satisfiedBy_insert (hp : c.satisfiedBy p = true) (hname : c.contains name = false) (value : String) :
    c.satisfiedBy (p.insert name value) = true := by
  rw [satisfiedBy_iff] at hp ⊢
  intro e he
  have hne : e.1 ≠ name := by
    rintro rfl
    rw [SortedMap.contains, SortedMap.mem_entries_iff.1 he] at hname
    cases hname
  rw [SortedMap.get?_insert, if_neg hne]
  exact hp e he

end Constraints

namespace Requirement
variable {r : Requirement} {s : Specification}

theorem satisfiedBy_iff :
    r.satisfiedBy s = true ↔ r.name = s.name ∧ r.target = s.target ∧ r.constraints.satisfiedBy s.properties = true := by
  simp [satisfiedBy, and_assoc]

theorem satisfiedBy_resolve_iff :
    r.satisfiedBy r.resolve = true ↔ ∀ e ∈ r.constraints.entries, e.2.isEmpty = false := by
  rw [← Constraints.satisfiedBy_resolve_iff, satisfiedBy_iff]
  simp [resolve]

/-- A value that serves the requirement and has no properties but those that are constrained. -/
structure Fits (r : Requirement) (s : Specification) : Prop where
  satisfies : r.satisfiedBy s = true
  properties : s.properties.keys = r.constraints.keys

theorem fits_resolve (h : r.satisfiedBy r.resolve = true) : r.Fits r.resolve :=
  ⟨h, Constraints.keys_resolve (satisfiedBy_resolve_iff.1 h)⟩

/-- What fits the requirement is its resolution or comes after it. -/
theorem resolve_first (h : r.satisfiedBy r.resolve = true) (hs : r.Fits s) :
    s = r.resolve ∨ r.resolve.properties.Precedes s.properties := by
  obtain ⟨hname, htarget, hsat⟩ := satisfiedBy_iff.1 hs.satisfies
  refine (Constraints.resolve_least (satisfiedBy_resolve_iff.1 h) hsat hs.properties).imp_left fun heq => ?_
  cases s
  simp_all [resolve]

/-- Specifications of one name and target are compared by their properties. -/
theorem isLE_compare_resolve (h : r.satisfiedBy r.resolve = true) (hs : r.Fits s) :
    (compare r.resolve s).isLE = true := by
  rcases resolve_first h hs with rfl | hprecedes
  · simp
  · obtain ⟨hname, htarget, -⟩ := satisfiedBy_iff.1 hs.satisfies
    change ((compare r.name s.name).then ((compare r.target s.target).then
      (compare r.resolve.properties s.properties))).isLE = true
    rw [hname, htarget, Properties.compare_of_precedes hprecedes, Std.ReflOrd.compare_self, Std.ReflOrd.compare_self]
    rfl

theorem satisfiedBy_setProperties (hs : r.satisfiedBy s = true) {added : List (String × String)}
    (h : ∀ e ∈ added, r.constraints.contains e.1 = false) :
    r.satisfiedBy (added.foldl (fun s e => s.setProperty e.1 e.2) s) = true := by
  induction added generalizing s with
  | nil => exact hs
  | cons e rest ih =>
    obtain ⟨he, hrest⟩ := List.forall_mem_cons.1 h
    obtain ⟨hname, htarget, hsat⟩ := satisfiedBy_iff.1 hs
    exact ih (satisfiedBy_iff.2 ⟨hname, htarget, Constraints.satisfiedBy_insert hsat he e.2⟩) hrest

/-- The requirement for which the offers have been made. -/
def offering (name : String) (target : Target) (offers : List (String × List String)) : Requirement :=
  { name, target, constraints := Constraints.acceptAll .empty offers }

variable {name : String} {target : Target} {offers : List (String × List String)}

/-- No set of acceptable values is empty if every property for which there is an offer is offered a value. -/
theorem offered_iff : (∀ e ∈ (offering name target offers).constraints.entries, e.2.isEmpty = false) ↔
    ∀ e ∈ offers, ∃ e' ∈ offers, e'.1 = e.1 ∧ e'.2 ≠ [] := by
  have hallows : ∀ property value, (offering name target offers).constraints.Allows property value ↔
      ∃ e ∈ offers, property = e.1 ∧ value ∈ e.2 := by
    intro property value
    refine Constraints.allows_acceptAll.trans (or_iff_right ?_)
    rintro ⟨allowed, hget, -⟩
    cases hget
  have hcontains : ∀ property, (offering name target offers).constraints.contains property = true ↔
      ∃ e ∈ offers, property = e.1 := by
    intro property
    exact Constraints.contains_acceptAll.trans (or_iff_right Bool.false_ne_true)
  constructor
  · intro h e he
    obtain ⟨allowed, hget⟩ := Option.isSome_iff_exists.1 ((hcontains e.1).2 ⟨e, he, rfl⟩)
    obtain ⟨value, hvalue⟩ := SortedSet.isEmpty_eq_false_iff.1 (h (e.1, allowed) (SortedMap.mem_entries_iff.2 hget))
    obtain ⟨e', he', hname, hmem⟩ := (hallows e.1 value).1 ⟨allowed, hget, hvalue⟩
    exact ⟨e', he', hname.symm, List.ne_nil_of_mem hmem⟩
  · intro h e he
    have hget := SortedMap.mem_entries_iff.1 he
    obtain ⟨first, hfirst, heq⟩ := (hcontains e.1).1 (by rw [SortedMap.contains, hget]; rfl)
    obtain ⟨e', he', hname, hne⟩ := h first hfirst
    obtain ⟨value, hvalue⟩ := List.exists_mem_of_ne_nil _ hne
    obtain ⟨allowed, hallowed, hmem⟩ := (hallows e.1 value).2 ⟨e', he', heq.trans hname.symm, hvalue⟩
    rw [hget] at hallowed
    cases hallowed
    exact SortedSet.isEmpty_eq_false_iff.2 ⟨value, hmem⟩

/-- What the resolution of a requirement is worth. -/
structure Resolves (r : Requirement) : Prop where
  satisfies_iff : r.satisfiedBy r.resolve = true ↔ ∀ e ∈ r.constraints.entries, e.2.isEmpty = false
  fits : r.satisfiedBy r.resolve = true → r.Fits r.resolve
  least : r.satisfiedBy r.resolve = true → ∀ s, r.Fits s → (compare r.resolve s).isLE = true ∧
    (s = r.resolve ∨ r.resolve.properties.Precedes s.properties)
  extended : ∀ (s : Specification) (added : List (String × String)), r.satisfiedBy s = true →
    (∀ e ∈ added, r.constraints.contains e.1 = false) →
      r.satisfiedBy (added.foldl (fun s e => s.setProperty e.1 e.2) s) = true

/-- Whatever is offered, in whatever order and however often: the resolution satisfies the requirement exactly where no
property is left without a value, and then it is the first of those that fit; and further properties do not matter. -/
theorem offering_resolves (name : String) (target : Target) (offers : List (String × List String)) :
    (offering name target offers).Resolves ∧
      ((offering name target offers).satisfiedBy (offering name target offers).resolve = true ↔
        ∀ e ∈ offers, ∃ e' ∈ offers, e'.1 = e.1 ∧ e'.2 ≠ []) :=
  ⟨{ satisfies_iff := satisfiedBy_resolve_iff
     fits := fits_resolve
     least := fun h _ hs => ⟨isLE_compare_resolve h hs, resolve_first h hs⟩
     extended := fun _ _ hs h => satisfiedBy_setProperties hs h },
    satisfiedBy_resolve_iff.trans offered_iff⟩

/-- Values that are offered again, and a property that is first offered none. -/
example : (offering "Vol" (.security "SPX")
    [("Surface", ["Z", "M"]), ("Tenor", []), ("Surface", ["B", "Z"]), ("Tenor", ["1Y"])]).resolve.text =
      "Vol(SECURITY:SPX)[Surface=B,Tenor=1Y]" := rfl

end Requirement

end CalcCycle
