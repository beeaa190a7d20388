import CalcCycle.Proofs.Cache.Open

/-! What an operation on the store leaves alone. It concerns the caches and the tokens of the one who
calls it; all others find and read their caches as before. -/

namespace CalcCycle.CacheStore

/-- The change concerns caches of which `H` holds and snapshots of which `T` holds, and new caches. -/
structure Spares (T : Token → Prop) (H : CacheHandle → Prop) (s s' : CacheStore) : Prop where
  caches : ∀ h : CacheHandle, h.index < s.caches.length → ¬ H h → s'.get? h = s.get? h
  length : s.caches.length ≤ s'.caches.length
  found : ∀ view token, ¬ T token → s'.find? view token = s.find? view token
  registered : ∀ e ∈ s'.registered, e ∈ s.registered ∨ T e.1.2

variable {T : Token → Prop} {H : CacheHandle → Prop} {s s' s'' : CacheStore} {h : CacheHandle}
  {view : String} {token : Token}

namespace Spares

theorem refl (T : Token → Prop) (H : CacheHandle → Prop) (s : CacheStore) : s.Spares T H s :=
  ⟨fun _ _ _ => rfl, Nat.le_refl _, fun _ _ _ => rfl, fun _ he => Or.inl he⟩

theorem trans (h₁ : s.Spares T H s') (h₂ : s'.Spares T H s'') : s.Spares T H s'' where
  caches k hk hnot := by
    have hlength := h₁.length
    rw [h₂.caches k (by omega) hnot, h₁.caches k hk hnot]
  length := Nat.le_trans h₁.length h₂.length
  found view token hnot := (h₂.found view token hnot).trans (h₁.found view token hnot)
  registered e he := by
    rcases h₂.registered e he with he | he
    · exact h₁.registered e he
    · exact Or.inr he

/-- An open cache that is spared stays open. -/
theorem open? (hs : s.Spares T H s') {V : Values} (ho : s.open? h = some V) (hnot : ¬ H h) :
    s'.open? h = some V := by
  obtain ⟨c, hc, hlive, rfl⟩ := open?_eq_some_iff.1 ho
  have hlt : h.index < s.caches.length := (List.getElem?_eq_some_iff.1 hc).1
  exact open?_eq_some_iff.2 ⟨c, (hs.caches h hlt hnot).trans hc, hlive, rfl⟩

theorem update (T : Token → Prop) (hH : H h) (c : Cache) : s.Spares T H (s.update h c) where
  caches k _ hnot := by
    have hne : h.index ≠ k.index := fun he => hnot (by cases h; cases k; simp_all)
    exact List.getElem?_set_ne hne
  length := by simp [CacheStore.update]
  found _ _ _ := rfl
  registered _ he := Or.inl he

theorem write (T : Token → Prop) (hH : H h) {v : Computed} (hw : s.write h v = .ok s') : s.Spares T H s' := by
  unfold CacheStore.write at hw
  cases hc : s.get? h with
  | none =>
    simp only [hc, Except.ok.injEq] at hw
    rw [← hw]
    exact refl T H s
  | some c =>
    simp only [hc] at hw
    cases hput : c.put v with
    | error e =>
      rw [hput] at hw
      cases hw
    | ok c' =>
      rw [hput] at hw
      cases hw
      exact update T hH c'

end Spares

/-- A cache that is opened for a new snapshot is new. -/
theorem acquire_new (hnone : s.find? view token = none) :
    (s.acquire view token).1 = ⟨s.caches.length⟩ ∧
      (s.acquire view token).2.caches.length = s.caches.length + 1 ∧
      (s.acquire view token).2.find? view token = some ⟨s.caches.length⟩ := by
  have hlookup : s.registered.lookup (view, token) = none := hnone
  simp [acquire, standalone, find?, List.lookup_append, hlookup]

theorem Spares.acquire (H : CacheHandle → Prop) (hT : T token) (hnone : s.find? view token = none) :
    s.Spares T H (s.acquire view token).2 := by
  unfold CacheStore.acquire standalone
  rw [hnone]
  refine ⟨fun k hk _ => List.getElem?_append_left hk, by simp, ?_, ?_⟩
  · intro view' token' hnot
    have hne : (view', token') ≠ (view, token) := fun he => hnot ((Prod.mk.inj he).2 ▸ hT)
    unfold find?
    rw [List.lookup_append, List.lookup_cons, beq_false_of_ne hne]
    simp
  · intro e he
    rcases List.mem_append.1 he with he | he
    · exact Or.inl he
    · rw [List.mem_singleton.1 he]
      exact Or.inr hT

theorem lookup_filter_ne {α β : Type} [BEq α] [LawfulBEq α] (l : List (α × β)) {a b : α} (hne : b ≠ a) :
    (l.filter fun e => e.1 != a).lookup b = l.lookup b := by
  induction l with
  | nil => rfl
  | cons e rest ih =>
    by_cases he : e.1 = a
    · rw [List.filter_cons_of_neg (by simp [he]), ih, List.lookup_cons, he, beq_false_of_ne hne]
    · rw [List.filter_cons_of_pos (by simp [he]), List.lookup_cons, List.lookup_cons, ih]

/-- A release closes the cache that is found under the view and the token. -/
theorem Spares.release (hT : T token) (hH : ∀ h, s.find? view token = some h → H h) :
    s.Spares T H (s.release view token).2 := by
  have hforgotten : ∀ {s₁ : CacheStore}, s.Spares T H s₁ →
      s.Spares T H { s₁ with registered := s₁.registered.filter fun e => e.1 != (view, token) } := by
    intro s₁ hclosed
    refine hclosed.trans ⟨fun _ _ _ => rfl, Nat.le_refl _, ?_, ?_⟩
    · intro view' token' hnot
      have hne : (view', token') ≠ (view, token) := fun he => hnot ((Prod.mk.inj he).2 ▸ hT)
      exact lookup_filter_ne _ hne
    · exact fun e he => Or.inl (List.mem_filter.1 he).1
  unfold CacheStore.release
  cases hf : s.find? view token with
  | none => exact refl T H s
  | some h =>
    simp only
    cases s.get? h with
    | none => exact hforgotten (refl T H s)
    | some c => exact hforgotten (update T (hH h hf) _)

/-- A snapshot for which no cache has been registered has no cache. -/
theorem find?_eq_none (hnot : ∀ e ∈ s.registered, e.1.2 ≠ token) : s.find? view token = none := by
  unfold find?
  rw [List.lookup_eq_none_iff]
  intro e he
  have hne : (view, token) ≠ e.1 := fun heq => hnot e he (congrArg (·.2) heq).symm
  simpa using hne

end CalcCycle.CacheStore
