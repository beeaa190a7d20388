import CalcCycle.Proofs.Feed.Lookup
import CalcCycle.Proofs.Value.Resolution

/-! What a query of a snapshot answers. A requirement is served by a stored specification that satisfies
it: by its own resolution before all others, else by the least one. A query answers so as long as the
resolution of the requirement satisfies the requirement, which is the case unless a property is
constrained to an empty set: the resolution leaves that property out, and the requirement asks for it. -/

namespace CalcCycle

namespace LiveValues

/-- The payload is stored under the least of the specifications that satisfy the requirement. -/
structure Least (values : LiveValues) (r : Requirement) (spec : Specification) (p : Payload) : Prop where
  stored : values.get? spec = some p
  satisfies : r.satisfiedBy spec = true
  least : ∀ spec' p', values.get? spec' = some p' → r.satisfiedBy spec' = true →
    (compare spec spec').isLE = true

/-- The answer serves the requirement. -/
structure Served (values : LiveValues) (r : Requirement) (answer : Option Payload) : Prop where
  answered : answer.isSome = true ↔ ∃ spec p, values.get? spec = some p ∧ r.satisfiedBy spec = true
  by_resolution : ∀ p, values.get? r.resolve = some p → r.satisfiedBy r.resolve = true → answer = some p
  by_least : ¬ (values.contains r.resolve = true ∧ r.satisfiedBy r.resolve = true) →
    ∀ p, answer = some p → ∃ spec, values.Least r spec p

variable {values : LiveValues} {r : Requirement} {p : Payload}

theorem find?_eq_some_iff_least :
    (values.find? fun s _ => r.satisfiedBy s).map (·.2) = some p ↔ ∃ spec, values.Least r spec p := by
  rw [Option.map_eq_some_iff]
  constructor
  · rintro ⟨⟨spec, p'⟩, hfind, rfl⟩
    obtain ⟨hstored, hsat, hleast⟩ := SortedMap.find?_eq_some_iff.1 hfind
    exact ⟨spec, hstored, hsat, hleast⟩
  · rintro ⟨spec, h⟩
    exact ⟨(spec, p), SortedMap.find?_eq_some_iff.2 ⟨h.stored, h.satisfies, h.least⟩, rfl⟩

theorem lookup_of_stored (h : values.get? r.resolve = some p) : values.lookup r = some p := by
  simp only [lookup, h]

theorem lookup_of_not_stored (h : values.get? r.resolve = none) :
    values.lookup r = (values.find? fun s _ => r.satisfiedBy s).map (·.2) := by
  simp only [lookup, h]

/-- What a lookup finds: whatever is stored under the resolution, else what is stored under the least
specification that satisfies the requirement. -/
theorem lookup_eq_some_iff :
    values.lookup r = some p ↔
      values.get? r.resolve = some p ∨ values.get? r.resolve = none ∧ ∃ spec, values.Least r spec p := by
  cases h : values.get? r.resolve with
  | some p' =>
    rw [lookup_of_stored h]
    simp
  | none =>
    rw [lookup_of_not_stored h, find?_eq_some_iff_least]
    simp

theorem lookup_eq_none_iff :
    values.lookup r = none ↔ values.get? r.resolve = none ∧
      ∀ spec p, values.get? spec = some p → r.satisfiedBy spec = false := by
  cases h : values.get? r.resolve with
  | some p =>
    rw [lookup_of_stored h]
    simp
  | none =>
    rw [lookup_of_not_stored h, Option.map_eq_none_iff, SortedMap.find?_eq_none_iff]
    simp

/-- A lookup serves the requirement where its resolution satisfies it or has no value. -/
theorem served_lookup (h : r.satisfiedBy r.resolve = true ∨ values.get? r.resolve = none) :
    values.Served r (values.lookup r) where
  answered := by
    constructor
    · intro hsome
      obtain ⟨p, hp⟩ := Option.isSome_iff_exists.1 hsome
      rcases lookup_eq_some_iff.1 hp with hstored | ⟨-, spec, hleast⟩
      · have hsat := h.resolve_right (by rw [hstored]; exact Option.some_ne_none p)
        exact ⟨r.resolve, p, hstored, hsat⟩
      · exact ⟨spec, p, hleast.stored, hleast.satisfies⟩
    · rintro ⟨spec, p, hstored, hsat⟩
      rw [Option.isSome_iff_ne_none]
      intro hnone
      rw [(lookup_eq_none_iff.1 hnone).2 spec p hstored] at hsat
      cases hsat
  by_resolution _ hp _ := lookup_of_stored hp
  by_least hnot p hp := by
    rcases lookup_eq_some_iff.1 hp with hstored | ⟨-, hleast⟩
    · have hcontains : values.contains r.resolve = true := by rw [SortedMap.contains, hstored]; rfl
      have hsat := h.resolve_right (by rw [hstored]; exact Option.some_ne_none p)
      exact absurd ⟨hcontains, hsat⟩ hnot
    · exact hleast

/-- Whatever is stored, lookups serve the requirement exactly where its resolution satisfies it. -/
theorem served_lookup_iff :
    (∀ values : LiveValues, values.Served r (values.lookup r)) ↔ r.satisfiedBy r.resolve = true := by
  refine ⟨fun h => ?_, fun h values => served_lookup (Or.inl h)⟩
  -- a value under the resolution alone is found, so some specification has to satisfy the requirement
  have hfound : lookup (SortedMap.empty.insert r.resolve default) r = some default :=
    lookup_of_stored (by simp [SortedMap.get?_insert])
  have hserved := h (SortedMap.empty.insert r.resolve default)
  rw [hfound] at hserved
  obtain ⟨spec, p, hstored, hsat⟩ := hserved.answered.1 rfl
  rw [SortedMap.get?_insert] at hstored
  split_ifs at hstored with heq
  · rwa [heq] at hsat
  · cases hstored

end LiveValues

namespace MemoryFeed

/-- A query of an active snapshot answers with what is stored under the resolution of the requirement,
else with what is stored under the least specification that satisfies it, and leaves the feed as it is.
So the answer serves the requirement where the resolution satisfies it or has no value; and it does so
whatever is stored exactly where no property is constrained to an empty set. -/
theorem query_answers {f : MemoryFeed} {token : Token} {values : LiveValues}
    (active : f.snapshots.get? token = some values) (r : Requirement) :
    ∃ answer, source.query f token r = (.ok answer, f) ∧
      (∀ p, answer = some p ↔ values.get? r.resolve = some p ∨
        values.get? r.resolve = none ∧ ∃ spec, values.Least r spec p) ∧
      (answer = none ↔ values.get? r.resolve = none ∧
        ∀ spec p, values.get? spec = some p → r.satisfiedBy spec = false) ∧
      (r.satisfiedBy r.resolve = true ∨ values.get? r.resolve = none → values.Served r answer) ∧
      ((∀ values : LiveValues, values.Served r (values.lookup r)) ↔
        ∀ e ∈ r.constraints.entries, e.2.isEmpty = false) := by
  refine ⟨values.lookup r, ?_, fun _ => LiveValues.lookup_eq_some_iff, LiveValues.lookup_eq_none_iff,
    LiveValues.served_lookup, LiveValues.served_lookup_iff.trans Requirement.satisfiedBy_resolve_iff⟩
  simp [source, query, active]

/-! A curve of any kind is asked for, and one without a kind is found. -/

def usdCurve (properties : Properties) : Specification :=
  { name := "Curve", target := .primitive "USD", properties }

def usdCurves (kinds : List String) : Requirement :=
  { name := "Curve", target := .primitive "USD", constraints := .ofList [("Curve", .ofList kinds)] }

def sofrCurve : Specification := usdCurve (.ofList [("Curve", "SOFR")])

/-- A curve without a kind and a curve of a kind. -/
def usdValues : LiveValues :=
  (SortedMap.empty.insert (usdCurve .empty) (.text "1")).insert sofrCurve (.text "2")

def usdFeed : MemoryFeed := { snapshots := SortedMap.empty.insert ⟨7⟩ usdValues, last := 7 }

theorem sofr_answers :
    ∃ answer, source.query usdFeed ⟨7⟩ (usdCurves ["OIS", "SOFR"]) = (.ok answer, usdFeed) ∧
      usdValues.Served (usdCurves ["OIS", "SOFR"]) answer := by
  have hactive : usdFeed.snapshots.get? ⟨7⟩ = some usdValues := rfl
  obtain ⟨answer, hquery, -, -, hserved, -⟩ := query_answers hactive (usdCurves ["OIS", "SOFR"])
  exact ⟨answer, hquery, hserved (Or.inl rfl)⟩

theorem get?_usdValues (spec : Specification) :
    usdValues.get? spec =
      if spec = sofrCurve then some (.text "2") else if spec = usdCurve .empty then some (.text "1") else none := by
  simp [usdValues, SortedMap.get?_insert]

/-- The value found is stored where the requirement does not accept it, though another is stored where it
does. -/
theorem curve_without_kind_found :
    usdFeed.snapshots.get? ⟨7⟩ = some usdValues ∧
      (source.query usdFeed ⟨7⟩ (usdCurves [])).1 = .ok (some (.text "1")) ∧
      usdValues.Least (usdCurves []) sofrCurve (.text "2") ∧
      ¬ usdValues.Served (usdCurves []) (some (.text "1")) := by
  have hnot : (usdCurves []).satisfiedBy (usdCurve .empty) = false := rfl
  refine ⟨rfl, rfl, ⟨rfl, rfl, ?_⟩, fun hserved => ?_⟩
  · intro spec p hstored hsat
    rw [get?_usdValues] at hstored
    split_ifs at hstored with hsofr hempty
    · rw [hsofr]
      rfl
    · rw [hempty, hnot] at hsat
      cases hsat
  · obtain ⟨spec, hleast⟩ := hserved.by_least (fun h => by cases h.2) _ rfl
    have hstored := hleast.stored
    rw [get?_usdValues] at hstored
    split_ifs at hstored with hsofr hempty
    · simp at hstored
    · have hsat := hleast.satisfies
      rw [hempty, hnot] at hsat
      cases hsat

end MemoryFeed

end CalcCycle
