import CalcCycle.Proofs.Cache.Frame

/-! What a cache was opened for, which is its label for good. A cache is registered under its label, so an
operation under one label concerns no cache with another one. -/

namespace CalcCycle

/-- The view and the snapshot that the cache was opened for. -/
def Cache.label (c : Cache) : String × Token := (c.view, c.token)

theorem Cache.put_label {c c' : Cache} {v : Computed} (h : c.put v = .ok c') : c'.label = c.label := by
  simp only [Cache.put, bind, Except.bind] at h
  split at h
  · cases h
  · split at h
    · cases h
    · cases h
      rfl

namespace CacheStore

def label? (s : CacheStore) (h : CacheHandle) : Option (String × Token) := (s.get? h).map Cache.label

/-- Caches are registered under their labels. -/
def Labelled (s : CacheStore) : Prop := ∀ e ∈ s.registered, s.label? e.2 = some e.1

/-- The change concerns caches under labels of which `P` holds, and new caches. No cache changes its label. -/
structure Confined (P : String × Token → Prop) (s s' : CacheStore) : Prop where
  labels : ∀ h l, s.label? h = some l → s'.label? h = some l
  caches : ∀ h c, s.get? h = some c → ¬ P c.label → s'.get? h = some c
  found : ∀ view token, ¬ P (view, token) → s'.find? view token = s.find? view token
  labelled : s.Labelled → s'.Labelled

variable {P : String × Token → Prop} {s s' s'' : CacheStore} {h : CacheHandle} {view : String} {token : Token}

theorem label?_eq_some_iff {l : String × Token} : s.label? h = some l ↔ ∃ c, s.get? h = some c ∧ c.label = l :=
  Option.map_eq_some_iff

theorem Labelled.empty : CacheStore.empty.Labelled := List.forall_mem_nil _

theorem Labelled.found (hs : s.Labelled) (hfound : s.find? view token = some h) :
    s.label? h = some (view, token) := by
  obtain ⟨front, back, hsplit, -⟩ := List.lookup_eq_some_iff.1 hfound
  exact hs ((view, token), h) (hsplit ▸ List.mem_append_right _ List.mem_cons_self)

namespace Confined

theorem refl (P : String × Token → Prop) (s : CacheStore) : s.Confined P s :=
  ⟨fun _ _ hl => hl, fun _ _ hc _ => hc, fun _ _ _ => rfl, id⟩

theorem trans (h₁ : s.Confined P s') (h₂ : s'.Confined P s'') : s.Confined P s'' where
  labels h l hl := h₂.labels h l (h₁.labels h l hl)
  caches h c hc hnot := h₂.caches h c (h₁.caches h c hc hnot) hnot
  found view token hnot := (h₂.found view token hnot).trans (h₁.found view token hnot)
  labelled hs := h₂.labelled (h₁.labelled hs)

theorem update {c d : Cache} (hc : s.get? h = some c) (hd : d.label = c.label) (hP : P c.label) :
    s.Confined P (s.update h d) := by
  have hlabel : ∀ k l, s.label? k = some l → (s.update h d).label? k = some l := by
    intro k l hl
    unfold CacheStore.label? at hl ⊢
    rw [get?_update s d hc]
    split_ifs with hk
    · rw [hk, hc] at hl
      simpa [hd] using hl
    · exact hl
  refine ⟨hlabel, fun k c' hc' hnot => ?_, fun _ _ _ => rfl, fun hs e he => hlabel _ _ (hs e he)⟩
  rw [get?_update s d hc]
  split_ifs with hk
  · rw [hk, hc] at hc'
    cases hc'
    exact absurd hP hnot
  · exact hc'

theorem write {v : Computed} {l : String × Token} (hl : s.label? h = some l) (hP : P l)
    (hw : s.write h v = .ok s') : s.Confined P s' := by
  obtain ⟨c, hc, rfl⟩ := label?_eq_some_iff.1 hl
  unfold CacheStore.write at hw
  simp only [hc] at hw
  cases hput : c.put v with
  | error e =>
    rw [hput] at hw
    cases hw
  | ok c' =>
    rw [hput] at hw
    cases hw
    exact update hc (Cache.put_label hput) hP

/-- A release closes a cache that is registered, and so it concerns its label only. -/
theorem release (hs : s.Labelled) (hP : P (view, token)) : s.Confined P (s.release view token).2 := by
  have hforgotten : ∀ {s₁ : CacheStore}, s.Confined P s₁ →
      s.Confined P { s₁ with registered := s₁.registered.filter fun e => e.1 != (view, token) } := by
    intro s₁ hclosed
    refine hclosed.trans ⟨fun _ _ hl => hl, fun _ _ hc _ => hc, fun view' token' hnot => ?_,
      fun hs₁ e he => hs₁ e (List.mem_filter.1 he).1⟩
    exact lookup_filter_ne _ fun he => hnot (he ▸ hP)
  unfold CacheStore.release
  cases hf : s.find? view token with
  | none => exact refl P s
  | some h =>
    obtain ⟨c, hc, hl⟩ := label?_eq_some_iff.1 (hs.found hf)
    simp only [hc]
    exact hforgotten (update hc rfl (hl ▸ hP))

theorem acquire (hP : P (view, token)) : s.Confined P (s.acquire view token).2 := by
  unfold CacheStore.acquire standalone
  cases hf : s.find? view token with
  | some h => exact refl P s
  | none =>
    have hold : ∀ k c, s.get? k = some c → (s.caches ++ [({ view, token } : Cache)])[k.index]? = some c := by
      intro k c hc
      rw [List.getElem?_append_left (List.getElem?_eq_some_iff.1 hc).1]
      exact hc
    have hlabel : ∀ k l, s.label? k = some l →
        (s.caches ++ [({ view, token } : Cache)])[k.index]?.map Cache.label = some l := by
      intro k l hl
      obtain ⟨c, hc, rfl⟩ := label?_eq_some_iff.1 hl
      rw [hold k c hc]
      rfl
    refine ⟨hlabel, fun k c hc _ => hold k c hc, fun view' token' hnot => ?_, fun hs e he => ?_⟩
    · have hne : (view', token') ≠ (view, token) := fun he => hnot (he ▸ hP)
      simp [CacheStore.find?, List.lookup_append, List.lookup_cons, beq_false_of_ne hne]
    · rcases List.mem_append.1 he with he | he
      · exact hlabel _ _ (hs e he)
      · rw [List.mem_singleton.1 he]
        simp [CacheStore.label?, CacheStore.get?, Cache.label]

end Confined

/-- The cache that is open for a view and a snapshot. -/
theorem acquire_found (s : CacheStore) (view : String) (token : Token) :
    (s.acquire view token).2.find? view token = some (s.acquire view token).1 := by
  cases hf : s.find? view token with
  | none =>
    obtain ⟨hhandle, -, hfound⟩ := acquire_new hf
    rw [hfound, hhandle]
  | some h => simp [acquire, hf]

/-- A cache that is open stays so when another one is opened. -/
theorem find?_acquire {view' : String} {token' : Token} (hfound : s.find? view token = some h) :
    (s.acquire view' token').2.find? view token = some h := by
  unfold acquire standalone
  cases s.find? view' token' with
  | some k => exact hfound
  | none => exact (List.lookup_append ..).trans (by rw [show s.registered.lookup (view, token) = _ from hfound]; rfl)

end CacheStore

end CalcCycle
