import CalcCycle.Feed.Memory
import CalcCycle.Proofs.Sorted

/-! What a lookup in live values finds, and when it finds only what another requirement accepts. -/

namespace CalcCycle.LiveValues
variable {values : LiveValues} {r q d : Requirement} {spec : Specification} {p : Payload}

/-- A value that is found is stored, under what the requirement resolves to or under what satisfies
it. -/
theorem lookup_some (h : values.lookup r = some p) :
    ∃ spec, values.get? spec = some p ∧ (spec = r.resolve ∨ r.satisfiedBy spec = true) := by
  unfold lookup at h
  cases hv : values.get? r.resolve with
  | some p' =>
    rw [hv] at h
    cases h
    exact ⟨r.resolve, hv, Or.inl rfl⟩
  | none =>
    rw [hv] at h
    obtain ⟨⟨spec, p'⟩, he, rfl⟩ := Option.map_eq_some_iff.1 h
    have hmem := List.mem_of_find?_eq_some he
    have hsat := List.find?_some he
    exact ⟨spec, SortedMap.mem_entries_iff.1 hmem, Or.inr hsat⟩

/-- A value that is the only one is found for whatever its specification satisfies. -/
theorem lookup_single (h : r.satisfiedBy spec = true) (p : Payload) :
    lookup (SortedMap.empty.insert spec p) r = some p := by
  unfold lookup
  rw [SortedMap.get?_insert]
  by_cases he : r.resolve = spec
  · rw [if_pos he]
  · rw [if_neg he, SortedMap.get?_empty]
    simp [SortedMap.find?, SortedMap.insert, SortedMap.insertEntry, SortedMap.empty, h]

/-- What is found for `d` is stored under a specification that `q` accepts, in whatever values, exactly
where `q` accepts all that `d` accepts. -/
theorem lookup_accepted_iff (hq : q.satisfiedBy d.resolve = true) :
    (∀ (values : LiveValues) (p : Payload), values.lookup d = some p →
        ∃ spec, values.get? spec = some p ∧ q.satisfiedBy spec = true) ↔
      ∀ spec, d.satisfiedBy spec = true → q.satisfiedBy spec = true := by
  constructor
  · intro h spec hspec
    obtain ⟨spec', hget, hsat⟩ := h _ default (lookup_single hspec default)
    rw [SortedMap.get?_insert] at hget
    by_cases he : spec' = spec
    · rw [← he]
      exact hsat
    · rw [if_neg he] at hget
      cases hget
  · intro h values p hp
    obtain ⟨spec, hget, hspec⟩ := lookup_some hp
    refine ⟨spec, hget, ?_⟩
    rcases hspec with rfl | hspec
    · exact hq
    · exact h spec hspec

end CalcCycle.LiveValues
