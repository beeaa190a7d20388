import CalcCycle.Proofs.Cache.Label
import CalcCycle.Proofs.Cycle.Standing
import CalcCycle.Proofs.Feed.History

/-! How far a step of a cycle reaches, whatever the calculations do and whoever else works on the feed and the
caches. It reaches the snapshots that the cycle has, and the caches under their labels; and it may find such
a cache open already. -/

namespace CalcCycle

/-! ### The run of a graph -/

namespace GraphRun
variable {w : RunSetting} {past past' : History} {r r' : GraphRun} {m : Move} {P : String × Token → Prop}

/-- A calculation closes no cache but the one that is open under the label of the run. -/
theorem foldl_interrupt_confined (hP : P (w.view, w.token)) (l : List Interrupt) (s : RunState)
    (hs : s.caches.Labelled) : s.caches.Confined P (l.foldl (RunState.interrupt w) s).caches := by
  induction l generalizing s with
  | nil => exact .refl P _
  | cons i rest ih =>
    cases i with
    | cancelCycle => exact ih (s.interrupt w .cancelCycle) hs
    | releaseCache =>
      have hclosed : s.caches.Confined P (s.interrupt w .releaseCache).caches := .release hs hP
      exact hclosed.trans (ih _ (hclosed.labelled hs))

theorem Step.confined (hP : P (w.view, w.token)) (hs : r.state.caches.Labelled)
    (hl : r.state.caches.label? w.cache = some (w.view, w.token)) (h : Step w past r m past' r') :
    r.state.caches.Confined P r'.state.caches := by
  cases h with
  | @work front j back s p jobs action =>
    cases action with
    | write _ written => exact .write hl hP written
    | @call inputs reply =>
      exact foldl_interrupt_confined hP reply.interrupts
        { r.state with calls := r.state.calls ++ [⟨j.node.id, j.id, inputs⟩] } hs
    | _ => exact .refl P _
  | @receive c rest =>
    rw [(takeIn_keeps { r with reports := rest } c).1]
    exact .refl P _
  | _ => exact .refl P _

end GraphRun

/-! ### What a cycle has -/

namespace Cycle

/-- The cycle has what the activity works on, and it gives that back when it is released and not before. -/
def Poised (c : Cycle) : Session.Activity → Prop
  | .idle => True
  | .frozen _ => c.stage ≠ .released
  | .asking token handle .. | .answered token handle .. =>
    c.stage ≠ .released ∧ c.snapshot = some token ∧ c.cache = some handle
  | .between w .. | .inside w .. =>
    c.stage ≠ .released ∧ c.view = w.view ∧ c.snapshot = some w.token ∧ c.cache = some w.cache
  | .collecting handle .. => c.stage ≠ .released ∧ c.cache = some handle
  | .closing token => c.stage = .released ∧ c.snapshot = some token

/-- The labels of the caches that the cycle has, or is about to open. -/
def Names (c : Cycle) (a : Session.Activity) (l : String × Token) : Prop := l.1 = c.view ∧ c.Owns a l.2

theorem ne_released_of_expect {c : Cycle} {op : Operation} (h : c.expect op = .ok ()) : c.stage ≠ .released :=
  fun hstage => released_notMem_allowed op (hstage ▸ stage_mem_of_expect h)

theorem acquired_eq_ok {c : Cycle} {token : Token} {handle : CacheHandle} (h : c.acquired = .ok (token, handle)) :
    c.snapshot = some token ∧ c.cache = some handle := by
  rcases c.acquired_cases with ⟨token', handle', hsnapshot, hcache, hheld⟩ | ⟨-, hlack⟩
  · cases hheld.symm.trans h
    exact ⟨hsnapshot, hcache⟩
  · rw [hlack] at h
    cases h

end Cycle

/-- The calculations of the graph close no cache. -/
structure Graph.Discreet (g : Graph) : Prop where
  accepted : g.Accepted
  keeps : ∀ n ∈ g.nodes, ∀ c t i, Interrupt.releaseCache ∉ (n.calculation.call c t i).interrupts

/-- The calculations that are left close no cache. -/
def Session.Activity.Discreet : Activity → Prop
  | .between _ rest _ => ∀ g ∈ rest, g.Discreet
  | .inside _ g rest _ r => (∀ a ∈ g :: rest, a.Discreet) ∧ ∃ k past, GraphRun.Orderly g k past r
  | _ => True

namespace Session
variable {c : Context MemoryFeed} {allowed : Move → Prop} {s s' : Session MemoryFeed} {a a' : Activity}
  {call : Option OperationCall} {token : Token} {handle : CacheHandle}

/-- Where the cycle has a snapshot it has a cache, under the label of its view and the snapshot. -/
structure Furnished (s : Session MemoryFeed) (a : Activity) : Prop where
  labelled : s.world.caches.Labelled
  named : s.cycle.snapshot = none ∧ s.cycle.cache = none ∨ ∃ token handle, s.cycle.snapshot = some token ∧
    s.cycle.cache = some handle ∧ s.world.caches.label? handle = some (s.cycle.view, token)
  poised : s.cycle.Poised a
  tokens : ∀ t, s.cycle.Owns a t → t.value ≤ s.world.feed.last

theorem Furnished.of_snapshot (h : s.Furnished a) (hsnapshot : s.cycle.snapshot = some token) :
    ∃ handle, s.cycle.cache = some handle ∧ s.world.caches.label? handle = some (s.cycle.view, token) := by
  rcases h.named with ⟨hnone, -⟩ | ⟨token', handle, hsnapshot', hcache, hlabel⟩
  · rw [hnone] at hsnapshot
    cases hsnapshot
  · cases hsnapshot.symm.trans hsnapshot'
    exact ⟨handle, hcache, hlabel⟩

theorem Furnished.of_cache (h : s.Furnished a) (hcache : s.cycle.cache = some handle) :
    ∃ token, s.cycle.snapshot = some token ∧ s.world.caches.label? handle = some (s.cycle.view, token) := by
  rcases h.named with ⟨-, hnone⟩ | ⟨token, handle', hsnapshot, hcache', hlabel⟩
  · rw [hnone] at hcache
    cases hcache
  · cases hcache.symm.trans hcache'
    exact ⟨token, hsnapshot, hlabel⟩

theorem Furnished.label (h : s.Furnished a) (hsnapshot : s.cycle.snapshot = some token)
    (hcache : s.cycle.cache = some handle) : s.world.caches.label? handle = some (s.cycle.view, token) := by
  obtain ⟨token', hsnapshot', hlabel⟩ := h.of_cache hcache
  cases hsnapshot.symm.trans hsnapshot'
  exact hlabel

/-- How far the step from `s` and `a` to `s'` and `a'` reaches. -/
structure Reaches (s : Session MemoryFeed) (a : Activity) (s' : Session MemoryFeed) (a' : Activity) : Prop where
  view : s'.cycle.view = s.cycle.view
  last : s.world.feed.last ≤ s'.world.feed.last
  snapshots : ∀ t, ¬ s'.cycle.Owns a' t →
    s'.world.feed.snapshots.get? t = s.world.feed.snapshots.get? t
  tokens : ∀ t, s'.cycle.Owns a' t → s.cycle.Owns a t ∨ s.world.feed.last < t.value ∧ t.value ≤ s'.world.feed.last
  caches : s.world.caches.Confined (s'.cycle.Names a') s'.world.caches

namespace Reaches

/-- A step after which the cycle has what it had before. -/
theorem same (hview : s'.cycle.view = s.cycle.view) (hlast : s'.world.feed.last = s.world.feed.last)
    (hsnapshots : ∀ t, ¬ s'.cycle.Owns a' t → s'.world.feed.snapshots.get? t = s.world.feed.snapshots.get? t)
    (hcaches : s.world.caches.Confined (s'.cycle.Names a') s'.world.caches)
    (hsnapshot : s'.cycle.snapshot = s.cycle.snapshot) (ha : ∀ t, a' ≠ .frozen t) : Reaches s a s' a' where
  view := hview
  last := Int.le_of_eq hlast.symm
  snapshots := hsnapshots
  tokens t ht := Or.inl (Or.inl (hsnapshot ▸ ht.resolve_right (ha t)))
  caches := hcaches

/-- A step that leaves the feed and the caches as they are. -/
theorem quiet (hworld : s'.world = s.world) (hview : s'.cycle.view = s.cycle.view)
    (hsnapshot : s'.cycle.snapshot = s.cycle.snapshot) (ha : ∀ t, a' ≠ .frozen t) : Reaches s a s' a' :=
  same hview (by rw [hworld]) (fun _ _ => by rw [hworld]) (hworld ▸ .refl _ _) hsnapshot ha

/-- A step in which only caches change. -/
theorem withCaches {caches : CacheStore} (hcaches : s.world.caches.Confined (s.cycle.Names a') caches)
    (ha : ∀ t, a' ≠ .frozen t) : Reaches s a (s.withCaches caches) a' :=
  same rfl rfl (fun _ _ => rfl) hcaches rfl ha

theorem freeze (s : Session MemoryFeed) (now : Int) :
    Reaches s .idle (s.withFeed (s.world.feed.takeSnapshot now).2) (.frozen (s.world.feed.takeSnapshot now).1) := by
  obtain ⟨hnew, hlast, hget⟩ := s.world.feed.takeSnapshot_new now
  refine ⟨rfl, Int.le_of_lt (hlast ▸ hnew), fun t ht => ?_, fun t ht => ?_, .refl _ _⟩
  · have hne : t ≠ (s.world.feed.takeSnapshot now).1 := fun he => ht (Or.inr (he ▸ rfl))
    exact (hget t).trans (if_neg hne)
  · refine ht.imp Or.inl fun htaken => ?_
    cases htaken
    exact ⟨hnew, Int.le_of_eq hlast.symm⟩

theorem acquire (s : Session MemoryFeed) (token : Token) {rest : List Requirement} {seeded : List Specification}
    {missing : SortedSet Requirement} :
    Reaches s (.frozen token) (s.acquire token).2 (.asking token handle rest seeded missing) where
  view := rfl
  last := Int.le_refl _
  snapshots _ _ := rfl
  tokens t ht := by
    rcases ht with ht | ht
    · cases ht
      exact Or.inl (Or.inr rfl)
    · cases ht
  caches := .acquire ⟨rfl, Or.inl rfl⟩

theorem giveBack (hsnapshot : s.cycle.snapshot = some token) :
    Reaches s .idle (s.ended.withFeed (MemoryFeed.source.release s.world.feed token).2) (.closing token) := by
  obtain ⟨-, hlast, hget⟩ := s.world.feed.release_keeps token
  refine same rfl hlast (fun t ht => ?_) (.refl _ _) rfl nofun
  have hne : t ≠ token := fun he => ht (Or.inl (he ▸ hsnapshot))
  exact (hget t).trans (if_neg hne)

end Reaches

theorem Advances.reaches (hc : c.feed = MemoryFeed.source) (h : s.Furnished a)
    (next : Advances c allowed s a call s' a') : Reaches s a s' a' := by
  cases next with
  | noSnapshot _ answer =>
    rw [hc] at answer
    cases answer
  | @freeze now _ _ _ answer =>
    rw [hc] at answer
    cases answer
    exact .freeze s now
  | acquire => exact .acquire s _
  | ask _ answer =>
    rw [hc] at answer
    obtain ⟨-, rfl⟩ := Prod.mk.inj answer
    exact .quiet rfl rfl rfl nofun
  | miss _ asked =>
    rw [hc] at asked
    obtain ⟨-, rfl⟩ := Prod.mk.inj asked
    exact .quiet rfl rfl rfl nofun
  | store written =>
    obtain ⟨-, hsnapshot, hcache⟩ := h.poised
    exact .withCaches (.write (h.label hsnapshot hcache) ⟨rfl, Or.inl hsnapshot⟩ written) nofun
  | move _ step =>
    obtain ⟨-, hview, hsnapshot, hcache⟩ := h.poised
    have hlabel := h.label hsnapshot hcache
    rw [hview] at hlabel
    -- the cases of a move are the same with any history
    exact .withCaches ((GraphRun.step_cases step {}).confined ⟨hview.symm, Or.inl hsnapshot⟩ h.labelled hlabel) nofun
  | giveBack _ held =>
    rw [hc]
    exact .giveBack held
  | close => exact .withCaches (.release h.labelled ⟨rfl, Or.inl h.poised.2⟩) nofun
  | _ => exact .quiet rfl rfl rfl nofun

/-- The cycle has the snapshot and the cache that it had, or it has just opened its cache. -/
theorem Advances.took (next : Advances c allowed s a call s' a') :
    s'.cycle.snapshot = s.cycle.snapshot ∧ s'.cycle.cache = s.cycle.cache ∨
      ∃ token, s' = (s.acquire token).2 := by
  cases next with
  | acquire => exact Or.inr ⟨_, rfl⟩
  | _ => exact Or.inl ⟨rfl, rfl⟩

theorem Advances.poised (h : s.cycle.Poised a) (next : Advances c allowed s a call s' a') :
    s'.cycle.Poised a' := by
  cases next with
  | freeze admitted => exact Cycle.ne_released_of_expect admitted
  | acquire => exact ⟨h, rfl, rfl⟩
  | skip | ask | miss | store | enter | move | leave | look => exact h
  | execute _ held =>
    obtain ⟨hsnapshot, hcache⟩ := Cycle.acquired_eq_ok held
    exact ⟨nofun, rfl, hsnapshot, hcache⟩
  | populate admitted held =>
    exact ⟨Cycle.ne_released_of_expect admitted, (Cycle.acquired_eq_ok held).2⟩
  | giveBack _ held => exact ⟨rfl, held⟩
  | _ => trivial

theorem Furnished.advance (hc : c.feed = MemoryFeed.source) (h : s.Furnished a)
    (next : Advances c allowed s a call s' a') : s'.Furnished a' := by
  have hreach := next.reaches hc h
  refine ⟨hreach.caches.labelled h.labelled, ?_, next.poised h.poised, fun t ht => ?_⟩
  · obtain ⟨hsnapshot, hcache⟩ | ⟨token, rfl⟩ := next.took
    · rw [hsnapshot, hcache, hreach.view]
      exact h.named.imp_right fun ⟨token, handle, hsnapshot, hcache, hlabel⟩ =>
        ⟨token, handle, hsnapshot, hcache, hreach.caches.labels _ _ hlabel⟩
    · refine Or.inr ⟨token, _, rfl, rfl, ?_⟩
      have hfound := s.world.caches.acquire_found s.cycle.view token
      exact (hreach.caches.labelled h.labelled).found hfound
  · rcases hreach.tokens t ht with hold | ⟨-, hnew⟩
    · exact Int.le_trans (h.tokens t hold) hreach.last
    · exact hnew

/-- Others may take snapshots, write to the feed and work on caches. -/
theorem Furnished.frame (h : s.Furnished a) (w : World MemoryFeed) {P : String × Token → Prop}
    (hcaches : s.world.caches.Confined P w.caches) (hlast : s.world.feed.last ≤ w.feed.last) :
    Furnished ⟨w, s.cycle⟩ a where
  labelled := hcaches.labelled h.labelled
  named := h.named.imp_right fun ⟨token, handle, hsnapshot, hcache, hlabel⟩ =>
    ⟨token, handle, hsnapshot, hcache, hcaches.labels _ _ hlabel⟩
  poised := h.poised
  tokens t ht := Int.le_trans (h.tokens t ht) hlast

/-! ### Caches that stay open -/

theorem Advances.discreet (hm : ∀ g ∈ s.cycle.model.schedule, g.Discreet) (h : a.Discreet)
    (next : Advances c allowed s a call s' a') : a'.Discreet := by
  cases next with
  | execute => exact hm
  | enter => exact ⟨h, _, _, .start (h _ List.mem_cons_self).accepted.wellFormed _⟩
  | move _ step =>
    obtain ⟨hgraphs, k, past, horderly⟩ := h
    have hwf := (hgraphs _ List.mem_cons_self).accepted.wellFormed
    exact ⟨hgraphs, k, _, (horderly.withCaches _).step hwf (GraphRun.step_cases step past)⟩
  | leave => exact (List.forall_mem_cons.1 h.1).2
  | _ => trivial

/-- A cycle that is released has what it had for good. -/
theorem Advances.released (h : s.cycle.Poised a) (hstage : s.cycle.stage = .released)
    (next : Advances c allowed s a call s' a') :
    s'.cycle.stage = .released ∧ s'.cycle.snapshot = s.cycle.snapshot ∧ s'.cycle.view = s.cycle.view := by
  cases next with
  | acquire => exact absurd hstage h
  | prepared | abort | executed | filled => exact absurd hstage h.1
  | execute admitted => exact absurd hstage (Cycle.ne_released_of_expect admitted)
  | nothing | giveBack => exact ⟨rfl, rfl, rfl⟩
  | _ => exact ⟨hstage, rfl, rfl⟩

/-- A cache that is open stays open unless the cycle is released that has it. -/
theorem Advances.found {view : String} (h : s.Furnished a) (hdiscreet : a.Discreet)
    (hfound : s.world.caches.find? view token = some handle) (next : Advances c allowed s a call s' a') :
    s'.world.caches.find? view token = some handle ∨
      s'.cycle.stage = .released ∧ s'.cycle.snapshot = some token ∧ s'.cycle.view = view := by
  cases next with
  | acquire => exact Or.inl (CacheStore.find?_acquire hfound)
  | store written =>
    have hspares := CacheStore.Spares.write (fun _ => False) (H := fun _ => True) trivial written
    exact Or.inl ((hspares.found _ _ not_false).trans hfound)
  | move _ step =>
    obtain ⟨hgraphs, k, past, horderly⟩ := hdiscreet
    have hspares := (GraphRun.step_cases step past).spares (T := fun _ => False) (H := fun _ => True) trivial
      (hgraphs _ List.mem_cons_self).keeps (horderly.withCaches _)
    exact Or.inl ((hspares.found _ _ not_false).trans hfound)
  | @close closed =>
    -- a release under another label closes another cache
    obtain ⟨hstage, hsnapshot⟩ := h.poised
    by_cases hsame : (view, token) = (s.cycle.view, closed)
    · cases hsame
      exact Or.inr ⟨hstage, hsnapshot, rfl⟩
    · have hclosed := CacheStore.Confined.release (P := (· = (s.cycle.view, closed))) h.labelled rfl
      exact Or.inl ((hclosed.found _ _ hsame).trans hfound)
  | _ => exact Or.inl hfound

end Session

end CalcCycle
