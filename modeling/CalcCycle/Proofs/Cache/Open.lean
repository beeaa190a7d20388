import CalcCycle.Cache.Store
import Mathlib.Tactic.SplitIfs

/-! The values of an open cache, and what the operations of the store do to them. -/

namespace CalcCycle

/-- The values of a cache. -/
abbrev Values := SortedMap Specification Payload

namespace CacheStore

/-- The values of the cache with the handle, as long as it is open. -/
def open? (s : CacheStore) (h : CacheHandle) : Option Values :=
  match s.get? h with
  | some c => if c.isReleased then none else some c.values
  | none => none

theorem open?_eq_some_iff {s : CacheStore} {h : CacheHandle}
    {values : Values} :
    s.open? h = some values ↔ ∃ c, s.get? h = some c ∧ c.isReleased = false ∧ c.values = values := by
  unfold open?
  cases hc : s.get? h with
  | none => simp
  | some c => cases hr : c.isReleased <;> simp [hr]

theorem get?_update (s : CacheStore) {h : CacheHandle} {c : Cache} (d : Cache) (hc : s.get? h = some c)
    (k : CacheHandle) : (s.update h d).get? k = if k = h then some d else s.get? k := by
  have hlt : h.index < s.caches.length := (List.getElem?_eq_some_iff.1 hc).1
  unfold get? update
  by_cases hk : k = h
  · rw [if_pos hk, hk, List.getElem?_set_self hlt]
  · have hne : h.index ≠ k.index := fun he => hk (by cases h; cases k; simp_all)
    rw [if_neg hk, List.getElem?_set_ne hne]

/-- A cache that nobody has opened for the view and the snapshot is a new and empty one. -/
theorem open?_acquire {s : CacheStore} {view : String} {token : Token} (h : s.find? view token = none) :
    (s.acquire view token).2.open? (s.acquire view token).1 = some .empty := by
  simp [acquire, h, standalone, open?, get?]

theorem read_of_open {s : CacheStore} {h : CacheHandle} {values : Values}
    (ho : s.open? h = some values) (spec : Specification) :
    s.read h spec = .ok ((values.get? spec).map fun p => ⟨spec, p⟩) := by
  obtain ⟨c, hc, hr, rfl⟩ := open?_eq_some_iff.1 ho
  simp only [read, hc, Cache.get, Cache.ensureLive, hr]
  rfl

theorem write_of_open {s : CacheStore} {h : CacheHandle} {values : Values}
    (ho : s.open? h = some values) {v : Computed} (hv : values.get? v.specification = none) :
    ∃ s', s.write h v = .ok s' ∧ s'.open? h = some (values.insert v.specification v.payload) ∧
      (∀ k, k ≠ h → s'.get? k = s.get? k) ∧ s'.registered = s.registered := by
  obtain ⟨c, hc, hr, rfl⟩ := open?_eq_some_iff.1 ho
  have hput : c.put v = .ok { c with values := c.values.insert v.specification v.payload } := by
    simp only [Cache.put, Cache.ensureLive, hr, SortedMap.contains, hv]
    rfl
  refine ⟨s.update h { c with values := c.values.insert v.specification v.payload }, ?_, ?_, ?_, rfl⟩
  · simp [write, hc, hput, Except.map]
  · have hget := get?_update s { c with values := c.values.insert v.specification v.payload } hc h
    rw [if_pos rfl] at hget
    exact open?_eq_some_iff.2 ⟨_, hget, hr, rfl⟩
  · intro k hk
    rw [get?_update s _ hc, if_neg hk]

/-- A value is read from an open cache only. -/
theorem open_of_read {s : CacheStore} {h : CacheHandle} {spec : Specification} {v : Computed}
    (hread : s.read h spec = .ok (some v)) :
    ∃ V, s.open? h = some V ∧ v.specification = spec ∧ V.get? spec = some v.payload := by
  cases ho : s.open? h with
  | some V =>
    rw [read_of_open ho, Except.ok.injEq, Option.map_eq_some_iff] at hread
    obtain ⟨p, hp, rfl⟩ := hread
    exact ⟨V, rfl, rfl, hp⟩
  | none =>
    unfold open? at ho
    unfold read at hread
    cases hc : s.get? h with
    | none => simp [hc] at hread
    | some c =>
      have hr : c.isReleased = true := by simpa [hc] using ho
      simp only [hc, Cache.get, Cache.ensureLive, hr, if_true] at hread
      cases hread

theorem put_ok {c c' : Cache} {v : Computed} (h : c.put v = .ok c') :
    c.isReleased = false ∧ c'.values = c.values.insert v.specification v.payload := by
  unfold Cache.put Cache.ensureLive at h
  cases hr : c.isReleased with
  | true =>
    rw [hr] at h
    cases h
  | false =>
    simp only [hr, bind, Except.bind, Bool.false_eq_true, if_false] at h
    split at h
    · cases h
    · cases h
      exact ⟨rfl, rfl⟩

/-- A cache that is open after a write was open before, and has got the value. -/
theorem open_of_write {s s' : CacheStore} {h : CacheHandle} {v : Computed} {V' : Values}
    (hwrite : s.write h v = .ok s') (ho : s'.open? h = some V') :
    ∃ V, s.open? h = some V ∧ V' = V.insert v.specification v.payload := by
  unfold write at hwrite
  cases hc : s.get? h with
  | none =>
    simp only [hc, Except.ok.injEq] at hwrite
    rw [← hwrite, open?, hc] at ho
    cases ho
  | some c =>
    simp only [hc] at hwrite
    cases hput : c.put v with
    | error e =>
      rw [hput] at hwrite
      cases hwrite
    | ok c' =>
      rw [hput] at hwrite
      cases hwrite
      obtain ⟨hr, hvalues⟩ := put_ok hput
      obtain ⟨c'', hget, -, rfl⟩ := open?_eq_some_iff.1 ho
      rw [get?_update s c' hc, if_pos rfl] at hget
      cases hget
      exact ⟨c.values, open?_eq_some_iff.2 ⟨c, hc, hr, rfl⟩, hvalues⟩

/-- A release closes a cache at most. -/
theorem open_of_release {s : CacheStore} {view : String} {token : Token} {h : CacheHandle} {V : Values}
    (ho : (s.release view token).2.open? h = some V) : s.open? h = some V := by
  unfold release at ho
  cases hf : s.find? view token with
  | none => simpa [hf] using ho
  | some k =>
    rw [hf] at ho
    cases hc : s.get? k with
    | none =>
      simp only [hc] at ho
      exact ho
    | some c =>
      simp only [hc] at ho
      obtain ⟨c', hc', hr, rfl⟩ := open?_eq_some_iff.1 ho
      have hget : (s.update k c.release).get? h = some c' := hc'
      rw [get?_update s c.release hc] at hget
      split_ifs at hget with hk
      · cases hget
        cases hr
      · exact open?_eq_some_iff.2 ⟨c', hget, hr, rfl⟩

end CacheStore

end CalcCycle
