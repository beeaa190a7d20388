import CalcCycle.Proofs.Cache.Books

/-! The history of the caches of a store, over any calls with any handles that were obtained in their course. A
cache is open from the call that first asks for its view and snapshot to the one that releases it. As long as it
is open it answers with what was put first; from then on it answers nothing. -/

namespace CalcCycle.CacheHistory

/-- The calls have been made to a store that was empty, with handles that had been obtained from it. -/
inductive Recorded : List CacheEvent → CacheStore → Prop
  | nil : Recorded [] .empty
  | snoc {log s e s'} (before : Recorded log s) (known : ∀ h ∈ e.handle?, Obtained log h) (step : s.Step e s') :
    Recorded (log ++ [e]) s'

variable {log : List CacheEvent} {s s' : CacheStore} {e : CacheEvent} {view : String} {token : Token}
  {h : CacheHandle}

theorem Recorded.books (hr : Recorded log s) : Books log s := by
  induction hr with
  | nil => exact .empty
  | snoc _ hknown hstep ih => exact ih.step hknown hstep

/-- What has been recorded up to a call is what the call was made after. -/
theorem Recorded.split {front back : List CacheEvent} (hr : Recorded (front ++ e :: back) s) :
    ∃ s₁ s₂, Recorded front s₁ ∧ s₁.Step e s₂ ∧ Recorded (front ++ [e]) s₂ := by
  generalize hlog : front ++ e :: back = log at hr
  induction hr generalizing back with
  | nil => simp at hlog
  | @snoc log s₁ last s₂ hbefore hknown hstep ih =>
    rcases back.eq_nil_or_concat with rfl | ⟨back, b, rfl⟩
    · obtain ⟨rfl, he⟩ := List.append_inj' hlog rfl
      cases he
      exact ⟨s₁, s₂, hbefore, hstep, hbefore.snoc hknown hstep⟩
    · rw [List.concat_eq_append, ← List.cons_append, ← List.append_assoc] at hlog
      exact ih (List.append_inj' hlog rfl).1

/-! ### What callers may rely on -/

/-- The call is a write through the handle, or a release of the cache that it stands for. -/
def Concerns (log : List CacheEvent) (h : CacheHandle) : CacheEvent → Prop
  | .put k _ _ => k = h
  | .released view token _ => Live log view token h
  | _ => False

/-- What holds of a store and of the handles that were obtained from it, given the calls made since it was empty. -/
structure Kept (log : List CacheEvent) (s : CacheStore) : Prop where
  /-- The same cache is given for the same view and snapshot, until they are released. -/
  same_iff : ∀ before between after view token h view' token' k,
    log = before ++ .acquired view token h :: (between ++ .acquired view' token' k :: after) →
      (h = k ↔ (view = view' ∧ token = token') ∧ .released view token true ∉ between)
  live : ∀ view token h, Live log view token h → ∃ c, s.get? h = some c ∧ ∀ spec,
    s.read h spec = .ok (firstPut log h spec) ∧ c.contains spec = .ok (firstPut log h spec).isSome
  stored : ∀ view token h v, Live log view token h → firstPut log h v.specification = none →
    ∃ s', s.write h v = .ok s'
  refused : ∀ view token h v, Live log view token h → firstPut log h v.specification ≠ none →
    s.write h v = .error (.duplicateValue v.specification)
  stale : ∀ view token h, Stale log view token h → ∃ c, s.get? h = some c ∧ c.size = 0 ∧
    (∀ v, s.write h v = .error (.released view token)) ∧ ∀ spec,
      s.read h spec = .error (.released view token) ∧ c.contains spec = .error (.released view token)
  /-- Where no cache is open, a new one is opened. -/
  renewed : ∀ view token, (∀ h, ¬ Live log view token h) → ¬ Obtained log (s.acquire view token).1 ∧
    (s.acquire view token).2.get? (s.acquire view token).1 = some { view, token }
  isolated : ∀ e s', s.Step e s' → ∀ h, Obtained log h → ¬ Concerns log h e → s'.get? h = s.get? h
  active : ∃ pairs : List (String × Token), pairs.Nodup ∧ pairs.length = s.active ∧
    ∀ view token, (view, token) ∈ pairs ↔ ∃ h, Live log view token h

namespace Books

theorem isolated (hb : Books log s) (hstep : s.Step e s') (ho : Obtained log h) (hnot : ¬ Concerns log h e) :
    s'.get? h = s.get? h := by
  have hspares : s.Spares (fun _ => True) (Concerns log · e) s' := by
    cases hstep with
    | acquire view token =>
      cases hfound : s.find? view token with
      | some k =>
        rw [hb.acquire_live (hb.find?_eq_some_iff.1 hfound)]
        exact .refl _ _ _
      | none => exact .acquire _ trivial hfound
    | release view token => exact .release trivial fun k hk => hb.find?_eq_some_iff.1 hk
    | put done => exact .write _ rfl done
    | refuse | get | contains => exact .refl _ _ _
  exact hspares.caches h (hb.lt_of_obtained ho) hnot

/-- A cache is given again exactly if it has not been released. -/
theorem same_iff (hr : Recorded log s) {before between after : List CacheEvent} {view' : String} {token' : Token}
    {k : CacheHandle}
    (hlog : log = before ++ .acquired view token h :: (between ++ .acquired view' token' k :: after)) :
    h = k ↔ (view = view' ∧ token = token') ∧ .released view token true ∉ between := by
  rw [← List.cons_append, ← List.append_assoc] at hlog
  subst hlog
  obtain ⟨s₁, s₂, hbefore, hstep, hafter⟩ := hr.split
  have hmem : .acquired view token h ∈ before ++ .acquired view token h :: between := by simp
  constructor
  · rintro rfl
    -- the later call finds the cache open, so no release has come in between
    have hpair := hafter.books.pair_unique (List.mem_append_left _ hmem) (List.mem_append_right _ List.mem_cons_self)
    refine ⟨hpair, fun hreleased => ?_⟩
    have hl : Live (before ++ .acquired view token h :: between ++ [.acquired view' token' h]) view' token' h :=
      live_concat.2 (Or.inl rfl)
    exact hafter.books.not_stale hl (stale_concat.2 (Or.inl ⟨before, between, rfl, hreleased⟩))
  · rintro ⟨⟨rfl, rfl⟩, hnot⟩
    cases hstep with
    | acquire =>
      have hl : Live (before ++ .acquired view token h :: between) view token h := ⟨before, between, rfl, hnot⟩
      rw [hbefore.books.acquire_live hl]

theorem read_live (hb : Books log s) (hl : Live log view token h) : ∃ c, s.get? h = some c ∧ ∀ spec,
    s.read h spec = .ok (firstPut log h spec) ∧ c.contains spec = .ok (firstPut log h spec).isSome := by
  obtain ⟨c, hc, -, hget⟩ := hb.live _ _ _ hl
  refine ⟨c, hc, fun spec => ⟨?_, Cache.contains_of_get (hget spec)⟩⟩
  rw [CacheStore.read, hc]
  exact hget spec

theorem stale_refuses (hb : Books log s) (hs : Stale log view token h) : ∃ c, s.get? h = some c ∧ c.size = 0 ∧
    (∀ v, s.write h v = .error (.released view token)) ∧ ∀ spec,
      s.read h spec = .error (.released view token) ∧ c.contains spec = .error (.released view token) := by
  have hc := hb.stale _ _ _ hs
  obtain ⟨-, hclosed⟩ := Cache.released_refuses (c := { view, token, values := .empty, isReleased := true }) rfl
  refine ⟨_, hc, rfl, hb.write_stale hs, fun spec => ⟨?_, (hclosed spec).2⟩⟩
  rw [CacheStore.read, hc]
  exact (hclosed spec).1

theorem renewed (hb : Books log s) (hnone : ∀ h, ¬ Live log view token h) :
    ¬ Obtained log (s.acquire view token).1 ∧
      (s.acquire view token).2.get? (s.acquire view token).1 = some { view, token } := by
  have hfound := hb.find?_eq_none_iff.2 hnone
  rw [CacheStore.get?_acquire_new hfound, (CacheStore.acquire_new hfound).1]
  exact ⟨fun ho => Nat.lt_irrefl _ (hb.lt_of_obtained ho), if_pos rfl⟩

theorem active (hb : Books log s) : ∃ pairs : List (String × Token), pairs.Nodup ∧ pairs.length = s.active ∧
    ∀ view token, (view, token) ∈ pairs ↔ ∃ h, Live log view token h := by
  refine ⟨s.registered.map (·.1), hb.keys, List.length_map _, fun view token => ?_⟩
  rw [List.mem_map]
  constructor
  · rintro ⟨⟨pair, h⟩, hmem, rfl⟩
    exact ⟨h, (hb.registered _ _ _).1 hmem⟩
  · rintro ⟨h, hl⟩
    exact ⟨_, (hb.registered _ _ _).2 hl, rfl⟩

end Books

/-- However the calls come, with handles new and old: caches are written once, concern each other in nothing, and
are dead from their release on, when the same view and snapshot may have a new one. -/
theorem recorded_kept (hr : Recorded log s) : Kept log s := by
  have hb := hr.books
  exact
    { same_iff := fun _ _ _ _ _ _ _ _ _ hlog => Books.same_iff hr hlog
      live := fun _ _ _ hl => hb.read_live hl
      stored := fun _ _ _ _ hl hnone => (hb.stored hl hnone).imp fun _ => And.left
      refused := fun _ _ _ _ hl hfirst => hb.write_again hl hfirst
      stale := fun _ _ _ hs => hb.stale_refuses hs
      renewed := fun _ _ hnone => hb.renewed hnone
      isolated := fun _ _ hstep _ ho hnot => hb.isolated hstep ho hnot
      active := hb.active }

/-! A cache that is written twice and released, and its successor. -/

def priced (text : String) : Computed := ⟨{ name := "Price", target := .security "S" }, .text text⟩

theorem rewritten_kept :
    ∃ log s, Recorded log s ∧ Kept log s ∧ log =
      [.acquired "V" ⟨1⟩ ⟨0⟩, .put ⟨0⟩ (priced "a") (.ok ()),
        .put ⟨0⟩ (priced "b") (.error (.duplicateValue (priced "b").specification)), .released "V" ⟨1⟩ true,
        .acquired "V" ⟨1⟩ ⟨1⟩, .put ⟨1⟩ (priced "c") (.ok ()),
        .got ⟨0⟩ (priced "a").specification (.error (.released "V" ⟨1⟩))] := by
  have h₁ : Recorded [.acquired "V" ⟨1⟩ ⟨0⟩] _ := .snoc .nil (by rintro _ ⟨⟩) (.acquire "V" ⟨1⟩)
  have h₂ := h₁.snoc (e := .put ⟨0⟩ (priced "a") (.ok ())) (by simp [CacheEvent.handle?, Obtained]) (.put rfl)
  have h₃ := h₂.snoc (e := .put ⟨0⟩ (priced "b") (.error (.duplicateValue (priced "b").specification)))
    (by simp [CacheEvent.handle?, Obtained]) (.refuse rfl)
  have h₄ := h₃.snoc (e := .released "V" ⟨1⟩ true) (by rintro _ ⟨⟩) (.release "V" ⟨1⟩)
  have h₅ := h₄.snoc (e := .acquired "V" ⟨1⟩ ⟨1⟩) (by rintro _ ⟨⟩) (.acquire "V" ⟨1⟩)
  have h₆ := h₅.snoc (e := .put ⟨1⟩ (priced "c") (.ok ())) (by simp [CacheEvent.handle?, Obtained]) (.put rfl)
  have h₇ := h₆.snoc (e := .got ⟨0⟩ (priced "a").specification (.error (.released "V" ⟨1⟩)))
    (by simp [CacheEvent.handle?, Obtained]) (.get ⟨0⟩ _)
  exact ⟨_, _, h₇, recorded_kept h₇, rfl⟩

end CalcCycle.CacheHistory
