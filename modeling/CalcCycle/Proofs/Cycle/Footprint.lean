import CalcCycle.Proofs.Cycle.Standing
import CalcCycle.Proofs.Feed.History

/-! What a step of a cycle changes besides the cycle: the snapshot and the cache that the cycle has, and
what is new. A new snapshot and a new cache are the cycle's own from then on, and so every step, be it of
the cycle or of others, leaves the cycle in order. -/

namespace CalcCycle.Session

/-- The step from `s` and `a` to `s'` and `a'` concerns nobody else. -/
structure Footprint (s : Session MemoryFeed) (a : Activity) (s' : Session MemoryFeed) (a' : Activity) :
    Prop where
  current : s'.world.feed.current = s.world.feed.current
  spares : s.world.Spares (s'.cycle.Owns a') (s'.cycle.cache = some ·) s'.world
  tokens : ∀ t, s'.cycle.Owns a' t → s.cycle.Owns a t ∨ s.world.feed.last < t.value ∧ t.value ≤ s'.world.feed.last
  handles : ∀ h, s'.cycle.cache = some h → s.cycle.cache = some h ∨
    s.world.caches.caches.length ≤ h.index ∧ h.index < s'.world.caches.caches.length

variable {c : Context MemoryFeed} {m : Model} {frozen : LiveValues} {k : Sketch} {s s' : Session MemoryFeed}
  {a a' : Activity}

namespace Footprint

/-- A step after which the cycle has what it had before. -/
theorem same (hcurrent : s'.world.feed.current = s.world.feed.current)
    (hspares : s.world.Spares (s'.cycle.Owns a') (s'.cycle.cache = some ·) s'.world)
    (hsnapshot : s'.cycle.snapshot = s.cycle.snapshot) (hcache : s'.cycle.cache = s.cycle.cache)
    (ha : ∀ t, a' ≠ .frozen t) : Footprint s a s' a' where
  current := hcurrent
  spares := hspares
  tokens t ht := Or.inl (Or.inl (hsnapshot ▸ ht.resolve_right (ha t)))
  handles _ hh := Or.inl (hcache ▸ hh)

/-- A step that leaves the feed and the caches as they are. -/
theorem quiet (hworld : s'.world = s.world) (hsnapshot : s'.cycle.snapshot = s.cycle.snapshot)
    (hcache : s'.cycle.cache = s.cycle.cache) (ha : ∀ t, a' ≠ .frozen t) : Footprint s a s' a' := by
  refine same (by rw [hworld]) ?_ hsnapshot hcache ha
  rw [hworld]
  exact ⟨Int.le_refl _, fun _ _ => rfl, .refl _ _ _⟩

/-- A step in which only caches change. -/
theorem caches {caches : CacheStore}
    (hspares : s.world.caches.Spares (s.cycle.Owns a') (s.cycle.cache = some ·) caches)
    (ha : ∀ t, a' ≠ .frozen t) : Footprint s a (s.withCaches caches) a' :=
  same rfl ⟨Int.le_refl _, fun _ _ => rfl, hspares⟩ rfl rfl ha

/-- The token of a new snapshot is greater than all before. -/
theorem freeze (s : Session MemoryFeed) (now : Int) :
    Footprint s .idle (s.withFeed (s.world.feed.takeSnapshot now).2) (.frozen (s.world.feed.takeSnapshot now).1) := by
  obtain ⟨hnew, hlast, hget⟩ := s.world.feed.takeSnapshot_new now
  refine ⟨rfl, ⟨Int.le_of_lt (hlast ▸ hnew), fun t ht => ?_, .refl _ _ _⟩, fun t ht => ?_, fun _ hh => Or.inl hh⟩
  · have hne : t ≠ (s.world.feed.takeSnapshot now).1 := fun he => ht (Or.inr (he ▸ rfl))
    exact (hget t).trans (if_neg hne)
  · refine ht.imp Or.inl fun htaken => ?_
    cases htaken
    exact ⟨hnew, Int.le_of_eq hlast.symm⟩

theorem acquire {token : Token} {handle : CacheHandle} {rest : List Requirement} {seeded : List Specification}
    {missing : SortedSet Requirement} (hnone : s.world.caches.find? s.cycle.view token = none) :
    Footprint s (.frozen token) (s.acquire token).2 (.asking token handle rest seeded missing) where
  current := rfl
  spares := ⟨Int.le_refl _, fun _ _ => rfl, .acquire _ (Or.inl rfl) hnone⟩
  tokens t ht := by
    rcases ht with ht | ht
    · cases ht
      exact Or.inl (Or.inr rfl)
    · cases ht
  handles h hh := by
    obtain ⟨hhandle, hlength, -⟩ := CacheStore.acquire_new hnone
    obtain rfl : (s.world.caches.acquire s.cycle.view token).1 = h := Option.some.inj hh
    refine Or.inr ⟨by simp [hhandle], ?_⟩
    change _ < (s.world.caches.acquire s.cycle.view token).2.caches.length
    simp [hhandle, hlength]

/-- Only the snapshot of the cycle is given back. -/
theorem giveBack {token : Token} (hsnapshot : s.cycle.snapshot = some token) :
    Footprint s .idle (s.ended.withFeed (MemoryFeed.source.release s.world.feed token).2) (.closing token) := by
  obtain ⟨hcurrent, hlast, hsnapshots⟩ := s.world.feed.release_keeps token
  refine same hcurrent ⟨Int.le_of_eq hlast.symm, fun t ht => ?_, .refl _ _ _⟩ rfl rfl nofun
  have hne : t ≠ token := fun he => ht (Or.inl (he ▸ hsnapshot))
  exact (hsnapshots t).trans (if_neg hne)

end Footprint

/-- A cycle that stands concerns nobody else in a step. -/
theorem Advances.footprint {call : Option OperationCall} (hc : c.Sober) (hm : m.Calm)
    (h : Stands c m frozen k s a) (hstep : Advances c (· ≠ .cancel) s a call s' a') : Footprint s a s' a' := by
  cases hstep with
  | noSnapshot _ answer =>
    rw [hc.feed] at answer
    cases answer
  | @freeze now _ _ _ answer =>
    rw [hc.feed] at answer
    cases answer
    exact .freeze s now
  | acquire =>
    cases h with
    | frozen _ _ _ unopened => exact .acquire unopened
  | ask _ answer =>
    obtain ⟨-, rfl⟩ := Prod.mk.inj ((h.query_eq hc).symm.trans answer)
    exact .quiet rfl rfl rfl nofun
  | miss _ asked =>
    obtain ⟨-, rfl⟩ := Prod.mk.inj ((h.query_eq hc).symm.trans asked)
    exact .quiet rfl rfl rfl nofun
  | store written =>
    cases h with
    | answered _ _ holds => exact .caches (.write _ holds.cache written) nofun
  | move _ step =>
    cases h with
    | @inside _ _ _ _ _ _ _ _ _ past _ _ _ _ holds _ part orderly =>
      have hmoved := GraphRun.step_cases step past
      have hpure := hm.pure _ (part.subset List.mem_cons_self)
      exact .caches (hmoved.spares holds.cache (fun n hn => (hpure n hn).steady.keeps) orderly) nofun
  | giveBack _ held =>
    rw [hc.feed]
    exact .giveBack held
  | close =>
    cases h with
    | closing _ _ snapshot cache registered =>
      refine .caches (.release (Or.inl snapshot) fun h hfound => ?_) nofun
      rw [cache, ← registered, hfound]
  | _ => exact .quiet rfl rfl rfl nofun

/-- It is not cancelled either. -/
theorem Advances.going {call : Option OperationCall} (hc : c.Sober) (hm : m.Calm)
    (hgoing : s.cycle.cancelled = false) (h : Stands c m frozen k s a)
    (hstep : Advances c (· ≠ .cancel) s a call s' a') : s'.cycle.cancelled = false := by
  cases hstep with
  | abort done result =>
    obtain ⟨report, hreport, -⟩ := h.leave hc hm done
    rw [hreport] at result
    cases result
  | executed =>
    cases h with
    | between _ _ _ going => exact going
  | _ => exact hgoing

/-! ### What is kept by every step -/

/-- The cycle stands, and nobody will be given its snapshot or its cache. -/
structure InOrder (c : Context MemoryFeed) (m : Model) (frozen : LiveValues) (k : Sketch)
    (s : Session MemoryFeed) (a : Activity) : Prop where
  model : s.cycle.model = m
  going : s.cycle.cancelled = false
  registered : ∀ e ∈ s.world.caches.registered, e.1.2.value ≤ s.world.feed.last
  tokens : ∀ t, s.cycle.Owns a t → t.value ≤ s.world.feed.last
  handles : ∀ h, s.cycle.cache = some h → h.index < s.world.caches.caches.length
  stands : Stands c m frozen k s a

namespace InOrder

theorem advance {call : Option OperationCall} (hc : c.Sober) (hm : m.Calm) (h : InOrder c m frozen k s a)
    (hstep : Advances c (· ≠ .cancel) s a call s' a') :
    InOrder c m (s.frozenAt frozen call) (aimedAt m (s.frozenAt frozen call) k call) s' a' := by
  have hprint := hstep.footprint hc hm h.stands
  have hlast := hprint.spares.last
  have hlength := hprint.spares.caches.length
  have htokens : ∀ t, s'.cycle.Owns a' t → t.value ≤ s'.world.feed.last := by
    intro t ht
    rcases hprint.tokens t ht with hold | ⟨-, hnew⟩
    · exact Int.le_trans (h.tokens t hold) hlast
    · exact hnew
  refine ⟨hstep.model.trans h.model, hstep.going hc hm h.going h.stands, ?_, htokens, ?_,
    hstep.stands hc hm h.model h.going h.registered h.stands⟩
  · intro e he
    rcases hprint.spares.caches.registered e he with hold | hnew
    · exact Int.le_trans (h.registered e hold) hlast
    · exact htokens _ hnew
  · intro handle hhandle
    rcases hprint.handles handle hhandle with hold | ⟨-, hnew⟩
    · exact Nat.lt_of_lt_of_le (h.handles handle hold) hlength
    · exact hnew

/-- A change that concerns the snapshots and the caches of others. -/
theorem frame {T : Token → Prop} {H : CacheHandle → Prop} {w' : World MemoryFeed}
    (h : InOrder c m frozen k s a) (hw : s.world.Spares T H w') (hT : ∀ t, s.cycle.Owns a t → ¬ T t)
    (hH : ∀ h, s.cycle.cache = some h → ¬ H h) (hnew : ∀ t, T t → t.value ≤ w'.feed.last) :
    InOrder c m frozen k ⟨w', s.cycle⟩ a where
  model := h.model
  going := h.going
  registered e he := by
    rcases hw.caches.registered e he with hold | hown
    · exact Int.le_trans (h.registered e hold) hw.last
    · exact hnew _ hown
  tokens t ht := Int.le_trans (h.tokens t ht) hw.last
  handles handle hhandle := Nat.lt_of_lt_of_le (h.handles handle hhandle) hw.caches.length
  stands := h.stands.frame hw hT hH

/-- A new cycle that finds no caches. -/
theorem create {w : World MemoryFeed} {cycle : Cycle} (hcaches : w.caches = .empty)
    (hcycle : ∃ id view results, cycle = .create id view m results) :
    InOrder c m frozen cycle.sketch ⟨w, cycle⟩ .idle := by
  obtain ⟨id, view, results, rfl⟩ := hcycle
  refine ⟨rfl, rfl, ?_, ?_, nofun, .idle rfl (.new ⟨rfl, rfl, rfl, rfl⟩)⟩
  · intro e he
    rw [hcaches] at he
    cases he
  · intro t ht
    rcases ht with ht | ht <;> cases ht

/-- As long as a cycle is new it does not matter what will be frozen for it. -/
theorem aimedAt_afterAll {call : Option OperationCall} {calls : List OperationCall}
    (h : InOrder c m frozen (k.afterAll m frozen calls) s a)
    (hstep : Advances c (· ≠ .cancel) s a call s' a') :
    aimedAt m (s.frozenAt frozen call) (k.afterAll m frozen calls) call =
      k.afterAll m (s.frozenAt frozen call) (calls ++ call.toList) := by
  cases call with
  | none => simp [aimedAt, frozenAt]
  | some call =>
    have hsame : k.afterAll m (s.frozenAt frozen (some call)) calls = k.afterAll m frozen calls := by
      by_cases hstage : s.cycle.stage = .created
      · have hshows : s.cycle.sketch = k.afterAll m frozen calls := by
          have hidle : a = .idle := by cases hstep <;> rfl
          subst hidle
          cases h.stands with
          | idle shows => exact shows
        exact Sketch.afterAll_of_created calls (hshows ▸ hstage)
      · rw [frozenAt_of_ne_created hstage]
    rw [Option.toList_some, Sketch.afterAll_concat, hsame]
    rfl

theorem advanceAll {call : Option OperationCall} {calls : List OperationCall} (hc : c.Sober) (hm : m.Calm)
    (h : InOrder c m frozen (k.afterAll m frozen calls) s a)
    (hstep : Advances c (· ≠ .cancel) s a call s' a') :
    InOrder c m (s.frozenAt frozen call) (k.afterAll m (s.frozenAt frozen call) (calls ++ call.toList)) s' a' := by
  rw [← h.aimedAt_afterAll hstep]
  exact h.advance hc hm hstep

end InOrder

/-- A cycle that works alone, over values that nobody writes to. -/
theorem Runs.inOrder {calls : List OperationCall} (hc : c.Sober) (hm : m.Calm)
    (h : Runs c (· ≠ .cancel) s a calls s' a') (hs : InOrder c m s.world.feed.current k s a) :
    s'.world.feed.current = s.world.feed.current ∧
      InOrder c m s.world.feed.current (k.afterAll m s.world.feed.current calls) s' a' := by
  induction h with
  | start => exact ⟨rfl, hs⟩
  | @step calls s₁ a₁ call s₂ a₂ _ next ih =>
    obtain ⟨hcurrent, hs₁⟩ := ih
    have hfrozen : s₁.frozenAt s.world.feed.current call = s.world.feed.current := by
      unfold frozenAt
      split
      · rw [hcurrent, ite_self]
      · rfl
    have hs₂ := hs₁.advanceAll hc hm next
    rw [hfrozen] at hs₂
    exact ⟨(next.footprint hc hm hs₁.stands).current.trans hcurrent, hs₂⟩

theorem performAll_sketch (hc : c.Sober) (hm : m.Calm) (hpool : c.pool.Completes (· ≠ .cancel))
    (hs : InOrder c m s.world.feed.current k s .idle) (calls : List OperationCall) :
    (performAll c (calls.map (·.request)) s).cycle.sketch = k.afterAll m s.world.feed.current calls := by
  have hgs : ∀ g ∈ s.cycle.model.schedule, g.Accepted := hs.model ▸ hm.accepted
  obtain ⟨-, hend⟩ := (performAll_runs hpool calls hgs).inOrder hc hm hs
  cases hend.stands with
  | idle shows => exact shows

end CalcCycle.Session
