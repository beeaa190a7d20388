import CalcCycle.Proofs.Cycle.Isolation
import CalcCycle.Proofs.Cycle.Reach

/-! Cycles in two contexts, each with its own feed, over one store of caches. A cache is found by its view and
the number of its snapshot, and only the feed that issued a number never issues it again. So two cycles share
a cache where they belong to different contexts and have the same view and the same number, and not else. -/

namespace CalcCycle

/-- A cycle in one of two contexts, with how far its last call has come. -/
structure Seat where
  home : Bool
  cycle : Cycle
  activity : Session.Activity := .idle

namespace Seat

/-- The snapshot is the cycle's own, or will be. -/
def Owns (d : Seat) (t : Token) : Prop := d.cycle.Owns d.activity t

/-- Nothing has been asked of the cycle. -/
inductive Fresh : Seat → Prop
  | create (home : Bool) (id : Uuid) (view : String) (m : Model) (results : Results) :
    Fresh { home, cycle := .create id view m results }

/-- The cycles belong to different contexts and have, or are about to open, a cache under one label. -/
structure Clash (d d' : Seat) : Prop where
  homes : d.home ≠ d'.home
  views : d.cycle.view = d'.cycle.view
  tokens : ∃ t, d.Owns t ∧ d'.Owns t

/-- The cycle finds its snapshot and its cache as they were, and what it is about to open is open or not as it
was. -/
structure Undisturbed (d : Seat) (w w' : World MemoryFeed) : Prop where
  snapshot : ∀ t, d.Owns t → w'.feed.snapshots.get? t = w.feed.snapshots.get? t
  cache : ∀ handle, d.cycle.cache = some handle → w'.caches.get? handle = w.caches.get? handle
  opened : ∀ t, d.Owns t → w'.caches.find? d.cycle.view t = w.caches.find? d.cycle.view t

/-- The cycle is released, and its cache had the label. -/
structure Ended (d : Seat) (view : String) (t : Token) : Prop where
  stage : d.cycle.stage = .released
  snapshot : d.cycle.snapshot = some t
  view : d.cycle.view = view

theorem Fresh.not_owns {d : Seat} (h : d.Fresh) (t : Token) : ¬ d.Owns t := by
  obtain ⟨home, id, view, m, results⟩ := h
  exact fun ht => ht.elim nofun nofun

theorem Fresh.discreet {d : Seat} (h : d.Fresh) : d.activity.Discreet := by
  obtain ⟨home, id, view, m, results⟩ := h
  trivial

theorem Fresh.furnished {d : Seat} (h : d.Fresh) (feed : MemoryFeed) {caches : CacheStore}
    (hcaches : caches.Labelled) : Session.Furnished ⟨⟨feed, caches⟩, d.cycle⟩ d.activity := by
  refine ⟨hcaches, ?_, ?_, fun t ht => absurd ht (h.not_owns t)⟩
  · obtain ⟨home, id, view, m, results⟩ := h
    exact Or.inl ⟨rfl, rfl⟩
  · obtain ⟨home, id, view, m, results⟩ := h
    trivial

end Seat

/-- Two feeds and one store of caches, with cycles that work on either feed. -/
structure Commons (ι : Type) where
  feeds : Bool → MemoryFeed
  caches : CacheStore
  seats : ι → Seat

namespace Commons
variable {ι : Type}

def world (o : Commons ι) (i : ι) : World MemoryFeed := ⟨o.feeds (o.seats i).home, o.caches⟩

def session (o : Commons ι) (i : ι) : Session MemoryFeed := ⟨o.world i, (o.seats i).cycle⟩

def advanced [DecidableEq ι] (o : Commons ι) (i : ι) (s : Session MemoryFeed) (a : Session.Activity) :
    Commons ι where
  feeds := Function.update o.feeds (o.seats i).home s.world.feed
  caches := s.world.caches
  seats := Function.update o.seats i { home := (o.seats i).home, cycle := s.cycle, activity := a }

def written (o : Commons ι) (home : Bool) (x : FeedWrite) : Commons ι where
  feeds := Function.update o.feeds home (x.apply (o.feeds home))
  caches := o.caches
  seats := o.seats

/-- One of the cycles makes a step in its context. -/
def Advances (c : Bool → Context MemoryFeed) (o : Commons ι) (i : ι) (call : Option OperationCall)
    (s : Session MemoryFeed) (a : Session.Activity) : Prop :=
  Session.Advances (c (o.seats i).home) (fun _ => True) (o.session i) (o.seats i).activity call s a

/-- One of the cycles makes a step, or somebody writes to a feed. -/
inductive Step [DecidableEq ι] (c : Bool → Context MemoryFeed) : Commons ι → Commons ι → Prop
  | advance {o : Commons ι} {i : ι} {call s a} (next : o.Advances c i call s a) : Step c o (o.advanced i s a)
  | write {o : Commons ι} (home : Bool) (x : FeedWrite) : Step c o (o.written home x)

/-- All cycles are new. There may be caches, under their labels. -/
structure Fresh (o : Commons ι) : Prop where
  labelled : o.caches.Labelled
  seats : ∀ i, (o.seats i).Fresh

/-- Each cycle has a cache where it has a snapshot, and two cycles in one context have no snapshot in common. -/
structure InOrder (o : Commons ι) : Prop where
  furnished : ∀ i, (o.session i).Furnished (o.seats i).activity
  apart : ∀ i j, i ≠ j → (o.seats i).home = (o.seats j).home → ∀ t, (o.seats i).Owns t → ¬ (o.seats j).Owns t

variable {c : Bool → Context MemoryFeed} {o o' : Commons ι} {i j : ι}

theorem Fresh.inOrder (h : o.Fresh) : o.InOrder where
  furnished i := (h.seats i).furnished (o.feeds (o.seats i).home) h.labelled
  apart i _ _ _ t ht := absurd ht ((h.seats i).not_owns t)

theorem InOrder.write (h : o.InOrder) (home : Bool) (x : FeedWrite) : (o.written home x).InOrder where
  furnished i := by
    refine (h.furnished i).frame ((o.written home x).world i) (.refl (fun _ => False) _) ?_
    change _ ≤ (Function.update o.feeds home (x.apply (o.feeds home)) (o.seats i).home).last
    rw [Function.update_apply]
    split_ifs with hhome
    · subst hhome
      rw [x.apply_eq]
      exact Int.le_refl _
    · exact Int.le_refl _
  apart := h.apart

variable [DecidableEq ι] {call : Option OperationCall} {s : Session MemoryFeed} {a : Session.Activity}

/-! ### One step -/

theorem seats_advanced_self :
    (o.advanced i s a).seats i = { home := (o.seats i).home, cycle := s.cycle, activity := a } :=
  Function.update_self ..

theorem seats_advanced_of_ne (hj : j ≠ i) : (o.advanced i s a).seats j = o.seats j :=
  Function.update_of_ne hj ..

/-- The step changes one cycle only. -/
theorem forall_seats_advanced {p : ι → Seat → Prop} :
    (∀ j, p j ((o.advanced i s a).seats j)) ↔
      p i { home := (o.seats i).home, cycle := s.cycle, activity := a } ∧ ∀ j, j ≠ i → p j (o.seats j) :=
  Function.forall_update_iff o.seats p

theorem session_advanced_self : (o.advanced i s a).session i = s := by
  simp [session, world, advanced]

theorem home_advanced : ∀ j, ((o.advanced i s a).seats j).home = (o.seats j).home :=
  (forall_seats_advanced (p := fun j d => d.home = (o.seats j).home)).2 ⟨rfl, fun _ _ => rfl⟩

/-- The step changes the feed of its own context at most. -/
theorem feeds_advanced (home : Bool) :
    (o.advanced i s a).feeds home = if home = (o.seats i).home then s.world.feed else o.feeds home :=
  Function.update_apply ..

omit [DecidableEq ι] in
/-- What a cycle has after a step no other cycle in its context has. -/
theorem InOrder.apart_advanced (hc : ∀ home, (c home).feed = MemoryFeed.source) (h : o.InOrder)
    (next : o.Advances c i call s a) (hj : j ≠ i) (hhome : (o.seats j).home = (o.seats i).home) {t : Token}
    (ht : (o.seats j).Owns t) : ¬ s.cycle.Owns a t := by
  intro hs
  rcases (next.reaches (hc _) (h.furnished i)).tokens t hs with hold | ⟨hnew, -⟩
  · exact h.apart j i hj hhome t ht hold
  · have hle := (h.furnished j).tokens t ht
    simp only [session, world, hhome] at hle hnew
    omega

theorem InOrder.advance (hc : ∀ home, (c home).feed = MemoryFeed.source) (h : o.InOrder)
    (next : o.Advances c i call s a) : (o.advanced i s a).InOrder := by
  have hreach := next.reaches (hc _) (h.furnished i)
  have hlast : ∀ home, (o.feeds home).last ≤ ((o.advanced i s a).feeds home).last := by
    intro home
    rw [feeds_advanced]
    split_ifs with hhome
    · exact hhome ▸ hreach.last
    · exact Int.le_refl _
  constructor
  · intro j
    by_cases hj : j = i
    · subst hj
      rw [session_advanced_self, seats_advanced_self]
      exact (h.furnished j).advance (hc _) next
    · have hframe := (h.furnished j).frame ((o.advanced i s a).world j) hreach.caches
      simp only [session, world, seats_advanced_of_ne hj] at hframe ⊢
      exact hframe (hlast _)
  · intro j k hjk hhome t ht
    rw [home_advanced, home_advanced] at hhome
    by_cases hj : j = i
    · subst hj
      rw [seats_advanced_self] at ht
      rw [seats_advanced_of_ne hjk.symm]
      exact fun hk => h.apart_advanced hc next hjk.symm hhome.symm hk ht
    · rw [seats_advanced_of_ne hj] at ht
      by_cases hk : k = i
      · subst hk
        rw [seats_advanced_self]
        exact h.apart_advanced hc next hj hhome ht
      · rw [seats_advanced_of_ne hk]
        exact h.apart j k hjk hhome t ht

theorem Step.inOrder (hc : ∀ home, (c home).feed = MemoryFeed.source) (h : o.InOrder) (hstep : Step c o o') :
    o'.InOrder := by
  cases hstep with
  | advance next => exact h.advance hc next
  | write home x => exact h.write home x

/-- A step disturbs another cycle only where the two clash. -/
theorem InOrder.undisturbed (hc : ∀ home, (c home).feed = MemoryFeed.source) (h : o.InOrder)
    (next : o.Advances c i call s a) (hj : j ≠ i)
    (hclash : ¬ ((o.advanced i s a).seats i).Clash (o.seats j)) :
    (o.seats j).Undisturbed (o.world j) ((o.advanced i s a).world j) := by
  have hreach := next.reaches (hc _) (h.furnished i)
  have hothers : ∀ t, (o.seats j).Owns t → ¬ s.cycle.Names a ((o.seats j).cycle.view, t) := by
    intro t ht hnames
    rw [seats_advanced_self] at hclash
    by_cases hhome : (o.seats j).home = (o.seats i).home
    · exact h.apart_advanced hc next hj hhome ht hnames.2
    · exact hclash ⟨Ne.symm hhome, hnames.1.symm, t, hnames.2, ht⟩
  refine ⟨fun t ht => ?_, fun handle hcache => ?_, fun t ht => hreach.caches.found _ _ (hothers t ht)⟩
  · change ((o.advanced i s a).feeds ((o.advanced i s a).seats j).home).snapshots.get? t = _
    rw [home_advanced, feeds_advanced]
    split_ifs with hhome
    · rw [hreach.snapshots t (h.apart_advanced hc next hj hhome ht)]
      simp only [session, world, hhome]
    · rfl
  · -- the step keeps to its own labels, and the cache has one of the other cycle
    obtain ⟨token, hsnapshot, hlabel⟩ := (h.furnished j).of_cache hcache
    obtain ⟨cache, hget, hnamed⟩ := CacheStore.label?_eq_some_iff.1 hlabel
    have hspared := hreach.caches.caches handle cache hget (hnamed ▸ hothers token (Or.inl hsnapshot))
    exact hspared.trans hget.symm

/-! ### Sharing -/

omit [DecidableEq ι] in
/-- Two cycles that share a cache belong to different contexts and have one label. -/
theorem InOrder.shared (h : o.InOrder) (hij : i ≠ j) {t t' : Token} (hi : (o.seats i).cycle.snapshot = some t)
    (hj : (o.seats j).cycle.snapshot = some t') (hsame : (o.seats i).cycle.cache = (o.seats j).cycle.cache) :
    (o.seats i).home ≠ (o.seats j).home ∧ (o.seats i).cycle.view = (o.seats j).cycle.view ∧ t = t' := by
  obtain ⟨handle, hcache, hlabel⟩ := (h.furnished i).of_snapshot hi
  have hlabel' := (h.furnished j).label hj (hsame.symm.trans hcache)
  obtain ⟨hview, rfl⟩ := Prod.mk.inj (Option.some.inj (hlabel.symm.trans hlabel'))
  exact ⟨fun hhome => h.apart i j hij hhome t (Or.inl hi) (Or.inl hj), hview, rfl⟩

/-- No calculation of any of the cycles closes a cache. -/
def Discreet (o : Commons ι) : Prop := ∀ i, ∀ g ∈ (o.seats i).cycle.model.schedule, g.Discreet

/-- Where no calculation closes a cache: the cache of a cycle that lives is open, unless a cycle that has had
it too is released. -/
structure Lent (o : Commons ι) : Prop where
  graphs : o.Discreet
  activity : ∀ i, (o.seats i).activity.Discreet
  found : ∀ i t handle, (o.seats i).cycle.snapshot = some t → (o.seats i).cycle.cache = some handle →
    (o.seats i).cycle.stage ≠ .released →
    o.caches.find? (o.seats i).cycle.view t = some handle ∨
      ∃ k, k ≠ i ∧ (o.seats k).Ended (o.seats i).cycle.view t

omit [DecidableEq ι] in
/-- A cycle that is released has not had the cache of two cycles that live. -/
theorem InOrder.not_ended (h : o.InOrder) {t : Token} (hi : (o.seats i).Owns t) (hj : (o.seats j).Owns t)
    (hhomes : (o.seats i).home ≠ (o.seats j).home) (hi' : (o.seats i).cycle.stage ≠ .released)
    (hj' : (o.seats j).cycle.stage ≠ .released) {k : ι} {view : String} : ¬ (o.seats k).Ended view t := by
  intro hended
  have hki : k ≠ i := fun he => hi' (he ▸ hended.stage)
  have hkj : k ≠ j := fun he => hj' (he ▸ hended.stage)
  have hk : (o.seats k).Owns t := Or.inl hended.snapshot
  -- there is no third context: the cycle shares one with `i` or with `j`
  by_cases hhome : (o.seats k).home = (o.seats i).home
  · exact h.apart k i hki hhome t hk hi
  · exact h.apart k j hkj ((Bool.eq_not_of_ne hhome).trans (Bool.eq_not_of_ne hhomes.symm).symm) t hk hj

omit [DecidableEq ι] in
theorem Lent.sharing (hl : o.Lent) (h : o.InOrder) (hij : i ≠ j) {t : Token}
    (hi : (o.seats i).cycle.snapshot = some t) (hj : (o.seats j).cycle.snapshot = some t)
    (hview : (o.seats i).cycle.view = (o.seats j).cycle.view) (hi' : (o.seats i).cycle.stage ≠ .released)
    (hj' : (o.seats j).cycle.stage ≠ .released) : (o.seats i).cycle.cache = (o.seats j).cycle.cache := by
  have hhomes : (o.seats i).home ≠ (o.seats j).home :=
    fun hhome => h.apart i j hij hhome t (Or.inl hi) (Or.inl hj)
  have hended : ∀ k view, ¬ (o.seats k).Ended view t :=
    fun k view => h.not_ended (Or.inl hi) (Or.inl hj) hhomes hi' hj'
  obtain ⟨handle, hcache, -⟩ := (h.furnished i).of_snapshot hi
  obtain ⟨handle', hcache', -⟩ := (h.furnished j).of_snapshot hj
  have hfound := (hl.found i t handle hi hcache hi').resolve_right fun ⟨k, _, hk⟩ => hended k _ hk
  have hfound' := (hl.found j t handle' hj hcache' hj').resolve_right fun ⟨k, _, hk⟩ => hended k _ hk
  rw [hview, hfound'] at hfound
  exact hcache.trans (hfound.symm.trans hcache'.symm)

/-- A cycle that is released stays so, with the cache that it had. -/
theorem ended_advanced (h : o.InOrder) (next : o.Advances c i call s a) {k : ι} {view : String} {t : Token}
    (hk : (o.seats k).Ended view t) : ((o.advanced i s a).seats k).Ended view t := by
  by_cases hki : k = i
  · subst hki
    rw [seats_advanced_self]
    obtain ⟨hstage, hsnapshot, hview⟩ := next.released (h.furnished k).poised hk.stage
    exact ⟨hstage, hsnapshot.trans hk.snapshot, hview.trans hk.view⟩
  · rwa [seats_advanced_of_ne hki]

/-- A cache that is open stays open, or the cycle that has made the step is released and had it. -/
theorem Lent.find?_advanced (hl : o.Lent) (h : o.InOrder) (next : o.Advances c i call s a) {view : String}
    {t : Token} {handle : CacheHandle} (hfound : o.caches.find? view t = some handle) :
    (o.advanced i s a).caches.find? view t = some handle ∨ ((o.advanced i s a).seats i).Ended view t := by
  rw [seats_advanced_self]
  exact (next.found (h.furnished i) (hl.activity i) hfound).imp_right fun ⟨hstage, hsnapshot, hview⟩ =>
    ⟨hstage, hsnapshot, hview⟩

/-- The cycle that makes the step has its cache still, or has just opened it. -/
theorem Lent.found_self (hc : ∀ home, (c home).feed = MemoryFeed.source) (h : o.InOrder) (hl : o.Lent)
    (next : o.Advances c i call s a) {t : Token} {handle : CacheHandle} (hsnapshot : s.cycle.snapshot = some t)
    (hcache : s.cycle.cache = some handle) (hlive : s.cycle.stage ≠ .released) :
    (o.advanced i s a).caches.find? s.cycle.view t = some handle ∨
      ∃ k, k ≠ i ∧ ((o.advanced i s a).seats k).Ended s.cycle.view t := by
  have hfurnished := h.furnished i
  obtain ⟨hsnapshot', hcache'⟩ | ⟨token, rfl⟩ := next.took
  · have hlive' : (o.seats i).cycle.stage ≠ .released :=
      fun hstage => hlive (next.released hfurnished.poised hstage).1
    have hbefore := hl.found i t handle (hsnapshot'.symm.trans hsnapshot) (hcache'.symm.trans hcache) hlive'
    rw [show s.cycle.view = (o.seats i).cycle.view from (next.reaches (hc _) hfurnished).view]
    rcases hbefore with hfound | ⟨k, hk, hended⟩
    · refine (hl.find?_advanced h next hfound).imp_right fun hi => ?_
      rw [seats_advanced_self] at hi
      exact absurd hi.stage hlive
    · exact Or.inr ⟨k, hk, ended_advanced h next hended⟩
  · cases hsnapshot
    cases hcache
    exact Or.inl (CacheStore.acquire_found _ _ _)

theorem Lent.advance (hc : ∀ home, (c home).feed = MemoryFeed.source) (h : o.InOrder) (hl : o.Lent)
    (next : o.Advances c i call s a) : (o.advanced i s a).Lent where
  graphs := (forall_seats_advanced (p := fun _ d => ∀ g ∈ d.cycle.model.schedule, g.Discreet)).2
    ⟨next.model ▸ hl.graphs i, fun j _ => hl.graphs j⟩
  activity := (forall_seats_advanced (p := fun _ d => d.activity.Discreet)).2
    ⟨next.discreet (hl.graphs i) (hl.activity i), fun j _ => hl.activity j⟩
  found := by
    intro j t handle hsnapshot hcache hlive
    by_cases hj : j = i
    · subst hj
      rw [seats_advanced_self] at hsnapshot hcache hlive ⊢
      exact hl.found_self hc h next hsnapshot hcache hlive
    · rw [seats_advanced_of_ne hj] at hsnapshot hcache hlive ⊢
      rcases hl.found j t handle hsnapshot hcache hlive with hfound | ⟨k, hk, hended⟩
      · exact (hl.find?_advanced h next hfound).imp_right fun hi => ⟨i, Ne.symm hj, hi⟩
      · exact Or.inr ⟨k, hk, ended_advanced h next hended⟩

/-! ### All steps -/

theorem Step.model (hstep : Step c o o') : ∀ j, (o'.seats j).cycle.model = (o.seats j).cycle.model := by
  cases hstep with
  | advance next =>
    exact (forall_seats_advanced (p := fun j d => d.cycle.model = (o.seats j).cycle.model)).2
      ⟨Session.Advances.model next, fun _ _ => rfl⟩
  | write => exact fun _ => rfl

theorem Step.lent (hc : ∀ home, (c home).feed = MemoryFeed.source) (h : o.InOrder) (hl : o.Lent)
    (hstep : Step c o o') : o'.Lent := by
  cases hstep with
  | advance next => exact hl.advance hc h next
  | write => exact ⟨hl.graphs, hl.activity, hl.found⟩

omit [DecidableEq ι] in
theorem Fresh.lent (h : o.Fresh) (hdiscreet : o.Discreet) : o.Lent where
  graphs := hdiscreet
  activity i := (h.seats i).discreet
  found i t _ hsnapshot := absurd (Or.inl hsnapshot) ((h.seats i).not_owns t)

theorem Fresh.steps (hc : ∀ home, (c home).feed = MemoryFeed.source) (h : o.Fresh)
    (hsteps : Relation.ReflTransGen (Step c) o o') : o'.InOrder ∧ (o'.Discreet → o'.Lent) := by
  induction hsteps with
  | refl => exact ⟨h.inOrder, h.lent⟩
  | tail _ next ih =>
    refine ⟨next.inOrder hc ih.1, fun hdiscreet => next.lent hc ih.1 (ih.2 fun i => ?_)⟩
    exact next.model i ▸ hdiscreet i

/-- How cycles that share a store of caches keep apart. -/
structure Secluded (c : Bool → Context MemoryFeed) (o : Commons ι) : Prop where
  /-- Two cycles have one cache only if they belong to different contexts and have one label. -/
  shared : ∀ i j t t', i ≠ j → (o.seats i).cycle.snapshot = some t → (o.seats j).cycle.snapshot = some t' →
    (o.seats i).cycle.cache = (o.seats j).cycle.cache →
    (o.seats i).home ≠ (o.seats j).home ∧ (o.seats i).cycle.view = (o.seats j).cycle.view ∧ t = t'
  /-- As long as they live they do have one cache then, unless a calculation closes caches. -/
  sharing : o.Discreet → ∀ i j t, i ≠ j → (o.seats i).cycle.snapshot = some t →
    (o.seats j).cycle.snapshot = some t → (o.seats i).cycle.view = (o.seats j).cycle.view →
    (o.seats i).cycle.stage ≠ .released → (o.seats j).cycle.stage ≠ .released →
    (o.seats i).cycle.cache = (o.seats j).cycle.cache
  /-- A step of one of them is not noticed by the other unless they clash. -/
  undisturbed : ∀ i call s a, o.Advances c i call s a → ∀ j, j ≠ i →
    ¬ ((o.advanced i s a).seats i).Clash (o.seats j) →
    (o.seats j).Undisturbed (o.world j) ((o.advanced i s a).world j)

/-- Whatever the clocks and the turns, cycles in two contexts with one store of caches keep apart, but for
those that have the same view and a snapshot of the same number. -/
theorem secluded_unless_clash (hc : ∀ home, (c home).feed = MemoryFeed.source) (h : o.Fresh)
    (hsteps : Relation.ReflTransGen (Step c) o o') : Secluded c o' := by
  obtain ⟨horder, hlent⟩ := h.steps hc hsteps
  exact
    { shared := fun i j t t' hij hi hj hsame => horder.shared hij hi hj hsame
      sharing := fun hdiscreet i j t hij hi hj hview hi' hj' =>
        (hlent hdiscreet).sharing horder hij hi hj hview hi' hj'
      undisturbed := fun i call s a next j hj hclash => horder.undisturbed hc next hj hclash }

theorem advanced_self (hsession : s = o.session i) (ha : a = (o.seats i).activity) : o.advanced i s a = o := by
  subst hsession ha
  simp [advanced, session, world]

theorem advanced_again (o : Commons ι) (i : ι) (s : Session MemoryFeed) (a : Session.Activity)
    (s' : Session MemoryFeed) (a' : Session.Activity) :
    (o.advanced i s a).advanced i s' a' = o.advanced i s' a' := by
  simp [advanced]

/-- The steps of a cycle that nobody interrupts. -/
theorem steps_of_runs (calls : List OperationCall)
    (h : Session.Runs (c (o.seats i).home) (fun _ => True) (o.session i) (o.seats i).activity calls s a) :
    Relation.ReflTransGen (Step c) o (o.advanced i s a) := by
  induction h with
  | start => rw [advanced_self rfl rfl]
  | @step calls s a call s' a' _ next ih =>
    have hnext : (o.advanced i s a).Advances c i call s' a' := by
      unfold Advances
      rwa [session_advanced_self, seats_advanced_self]
    have hstep : Step c _ _ := .advance hnext
    rw [advanced_again] at hstep
    exact ih.tail hstep

/-! A cycle in either context over the same model, which passes a rate on. Only the first feed knows the rate. -/

def twoHomes (m : Model) : Commons Bool where
  feeds home := { current := if home then .empty else Weave.rates "1" }
  caches := .empty
  seats home := { home, cycle := .create ⟨home.toNat⟩ "view" m (.empty "view") }

def bothInMemory (_ : Bool) : Context MemoryFeed := Weave.inMemory

def prepared (o : Commons Bool) (i : Bool) (now : Int) : Commons Bool :=
  o.advanced i ((o.session i).prepare Weave.inMemory now).2 .idle

def released (o : Commons Bool) (i : Bool) : Commons Bool :=
  o.advanced i ((o.session i).release Weave.inMemory).2 .idle

/-- Both cycles have prepared their inputs, at these readings of the clocks. -/
def bothPrepared (m : Model) (now now' : Int) : Commons Bool := ((twoHomes m).prepared false now).prepared true now'

theorem prepared_steps {o : Commons Bool} {i : Bool} (hidle : (o.seats i).activity = .idle) (now : Int) :
    Relation.ReflTransGen (Step bothInMemory) o (o.prepared i now) := by
  refine steps_of_runs [(.prepareInputs, now)] ?_
  rw [hidle]
  exact Session.prepare_runs _ _ now _

theorem twoHomes_fresh (m : Model) : (twoHomes m).Fresh :=
  ⟨.empty, fun home => .create home ⟨home.toNat⟩ "view" m (.empty "view")⟩

theorem bothPrepared_steps (m : Model) (now now' : Int) :
    Relation.ReflTransGen (Step bothInMemory) (twoHomes m) (bothPrepared m now now') :=
  (prepared_steps rfl now).trans (prepared_steps rfl now')

/-- At different readings the cycles have caches of their own. -/
theorem readings_keep_apart :
    ∃ m, Weave.echoBlueprint.build = .ok m ∧ Secluded bothInMemory (bothPrepared m 7 8) ∧
      (∀ home, ((bothPrepared m 7 8).seats home).cycle.cache = some ⟨home.toNat⟩) ∧
      ¬ ((bothPrepared m 7 8).seats false).Clash ((bothPrepared m 7 8).seats true) := by
  obtain ⟨m, hm⟩ : ∃ m, Weave.echoBlueprint.build = .ok m := ⟨_, rfl⟩
  have hsecluded := secluded_unless_clash (fun _ => rfl) (twoHomes_fresh m) (bothPrepared_steps m 7 8)
  cases hm
  refine ⟨_, rfl, hsecluded, ?_, ?_⟩
  · intro home
    cases home <;> rfl
  · rintro ⟨-, -, t, ht, ht'⟩
    cases ht.resolve_right nofun
    exact absurd (ht'.resolve_right nofun) (by decide)

/-- At equal readings they have one. The second cycle finds the rate that the first one has seeded, which its
own feed does not know; and when the first one is released the cache is closed. -/
theorem equal_readings_clash :
    ∃ m, Weave.echoBlueprint.build = .ok m ∧ (twoHomes m).Fresh ∧
      Relation.ReflTransGen (Step bothInMemory) (twoHomes m) (bothPrepared m 7 7) ∧
      (∀ home, ((bothPrepared m 7 7).seats home).cycle.stage = .inputsPrepared ∧
        ((bothPrepared m 7 7).seats home).cycle.snapshot = some ⟨7⟩ ∧
        ((bothPrepared m 7 7).seats home).cycle.cache = some ⟨0⟩) ∧
      ((bothPrepared m 7 7).feeds true).current = .empty ∧
      (bothPrepared m 7 7).caches.read ⟨0⟩ Weave.rateAsked.resolve =
        .ok (some ⟨Weave.rateAsked.resolve, .text "1"⟩) ∧
      ((bothPrepared m 7 7).released false).caches.read ⟨0⟩ Weave.rateAsked.resolve =
        .error (.released "view" ⟨7⟩) := by
  obtain ⟨m, hm⟩ : ∃ m, Weave.echoBlueprint.build = .ok m := ⟨_, rfl⟩
  have hsteps := bothPrepared_steps m 7 7
  cases hm
  refine ⟨_, rfl, twoHomes_fresh _, hsteps, ?_, rfl, rfl, rfl⟩
  intro home
  cases home <;> exact ⟨rfl, rfl, rfl⟩

end Commons

end CalcCycle
