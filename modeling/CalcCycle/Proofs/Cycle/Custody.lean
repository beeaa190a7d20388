import CalcCycle.Feed.Scripted
import CalcCycle.Proofs.Cycle.Requests

/-! Who has the snapshots that a feed hands out. A cycle holds one at most, and gives back the one it
holds. A preparation that fails when the cache is seeded leaves the cycle as new but for the snapshot it
holds; the next preparation takes another, and the one before is never given back. -/

namespace CalcCycle

/-- A feed with a list of the tokens it has handed out and of those that were given back to it, whether or
not it took them back. -/
structure Audit (σ : Type) where
  state : σ
  taken : List Token := []
  returned : List Token := []

variable {σ : Type}

def Feed.audited (f : Feed σ) : Feed (Audit σ) where
  snapshot a now :=
    match f.snapshot a.state now with
    | (.ok token, state) => (.ok token, { a with state, taken := a.taken ++ [token] })
    | (.error e, state) => (.error e, { a with state })
  query a token r := ((f.query a.state token r).1, { a with state := (f.query a.state token r).2 })
  release a token :=
    ((f.release a.state token).1,
      { a with state := (f.release a.state token).2, returned := a.returned ++ [token] })

def Context.audited (c : Context σ) : Context (Audit σ) where
  config := c.config
  feed := c.feed.audited
  listener := c.listener
  pool := c.pool

namespace Feed
variable {f : Feed σ} {a a' : Audit σ} {now : Int} {token : Token}

@[simp] theorem audited_query_taken (r : Requirement) : (f.audited.query a token r).2.taken = a.taken := rfl

@[simp] theorem audited_query_returned (r : Requirement) :
    (f.audited.query a token r).2.returned = a.returned := rfl

@[simp] theorem audited_release_taken : (f.audited.release a token).2.taken = a.taken := rfl

@[simp] theorem audited_release_returned : (f.audited.release a token).2.returned = a.returned ++ [token] := rfl

theorem audited_snapshot_ok (h : f.audited.snapshot a now = (.ok token, a')) :
    a'.taken = a.taken ++ [token] ∧ a'.returned = a.returned := by
  simp only [audited] at h
  split at h
  · cases h
    exact ⟨rfl, rfl⟩
  · cases h

theorem audited_snapshot_error {e : FeedError} (h : f.audited.snapshot a now = (.error e, a')) :
    a'.taken = a.taken ∧ a'.returned = a.returned := by
  simp only [audited] at h
  split at h
  · cases h
  · cases h
    exact ⟨rfl, rfl⟩

end Feed

/-- A preparation that was broken off when the cache was seeded. -/
def Request.BrokenOff : Request × Except Failure Unit → Bool
  | (.prepare _, .error (.cache _)) => true
  | _ => false

namespace Session

/-! ### Nothing else is changed -/

section Plain

/-- The session without the lists. -/
def plain (s : Session (Audit σ)) : Session σ := ⟨⟨s.world.feed.state, s.world.caches⟩, s.cycle⟩

def Seeding.plain (s : Seeding (Audit σ)) : Seeding σ where
  world := ⟨s.world.feed.state, s.world.caches⟩
  seeded := s.seeded
  missing := s.missing

theorem seed_plain (f : Feed σ) (token : Token) (cache : CacheHandle) (rs : List Requirement)
    (s : Seeding (Audit σ)) :
    seed f token cache rs s.plain =
      ((seed f.audited token cache rs s).1, (seed f.audited token cache rs s).2.plain) := by
  induction rs generalizing s with
  | nil => rfl
  | cons r rest ih =>
    by_cases hseeded : r.resolve ∈ s.seeded
    · rw [seed, seed, if_pos hseeded, if_pos (show r.resolve ∈ s.plain.seeded from hseeded)]
      exact ih s
    · rw [seed_cons _ _ _ _ hseeded, seed_cons _ _ _ _ (show r.resolve ∉ s.plain.seeded from hseeded)]
      rw [show (f.audited.query s.world.feed token r).1 = (f.query s.plain.world.feed token r).1 from rfl,
        show s.plain.world.caches = s.world.caches from rfl]
      split
      · split
        · next caches _ =>
          exact ih ⟨⟨(f.audited.query s.world.feed token r).2, caches⟩, r.resolve :: s.seeded, s.missing⟩
        · rfl
      · exact ih ⟨⟨(f.audited.query s.world.feed token r).2, s.world.caches⟩, s.seeded, s.missing.insert r⟩

variable (c : Context σ) (now : Int) (s : Session (Audit σ))

theorem prepare_plain :
    s.plain.prepare c now = ((s.prepare c.audited now).1, (s.prepare c.audited now).2.plain) := by
  by_cases hstage : s.cycle.stage = .created
  · rw [prepare_eq c now (s := s.plain) hstage, prepare_eq c.audited now hstage]
    rw [show s.plain.world.feed = s.world.feed.state from rfl]
    simp only [Context.audited, Feed.audited]
    cases hanswer : c.feed.snapshot s.world.feed.state now with
    | mk answer state =>
      cases answer with
      | error e => rfl
      | ok token =>
        have hseed := seed_plain c.feed token (s.world.caches.acquire s.cycle.view token).1
          s.cycle.model.liveData.elements
          ⟨⟨{ s.world.feed with state, taken := s.world.feed.taken ++ [token] },
            (s.world.caches.acquire s.cycle.view token).2⟩, [], .empty⟩
        simp only [Seeding.plain, Feed.audited] at hseed
        simp only [seedAll, acquire, withFeed, plain, hseed]
        split <;> rfl
  · have hnot : s.cycle.stage ∉ Operation.allowed .prepareInputs := by simpa [Operation.allowed]
    have hexpect := Cycle.expect_error hnot
    unfold prepare
    rw [show s.plain.cycle = s.cycle from rfl, hexpect]

theorem execute_plain : s.plain.execute c = ((s.execute c.audited).1, (s.execute c.audited).2.plain) := by
  unfold execute
  rw [show s.plain.cycle = s.cycle from rfl]
  cases s.cycle.expect .executePlans with
  | error e => rfl
  | ok u => cases s.cycle.acquired <;> rfl

theorem populate_plain : s.plain.populate now = ((s.populate now).1, (s.populate now).2.plain) := by
  unfold populate
  rw [show s.plain.cycle = s.cycle from rfl, show s.plain.world.caches = s.world.caches from rfl]
  cases s.cycle.expect .populateResults with
  | error e => rfl
  | ok u =>
    cases s.cycle.acquired with
    | error e => rfl
    | ok held =>
      simp only
      split <;> rfl

theorem release_plain : s.plain.release c = ((s.release c.audited).1, (s.release c.audited).2.plain) := by
  unfold release
  rw [show s.plain.cycle = s.cycle from rfl]
  cases s.cycle.expect .releaseResources with
  | error e => rfl
  | ok u =>
    simp only
    split <;> rfl

theorem andThen_plain {r : Except Failure Unit × Session (Audit σ)}
    {next : Session σ → Except Failure Unit × Session σ}
    {next' : Session (Audit σ) → Except Failure Unit × Session (Audit σ)}
    (h : ∀ s, next s.plain = ((next' s).1, (next' s).2.plain)) :
    andThen (r.1, r.2.plain) next = ((andThen r next').1, (andThen r next').2.plain) := by
  obtain ⟨outcome, s⟩ := r
  cases outcome with
  | error e => rfl
  | ok u => exact h s

/-- An audit changes nothing but its lists. -/
theorem perform_plain (request : Request) :
    s.plain.perform c request = ((s.perform c.audited request).1, (s.perform c.audited request).2.plain) := by
  cases request with
  | prepare now => exact prepare_plain c now s
  | execute => exact execute_plain c s
  | populate now => exact populate_plain now s
  | release => exact release_plain c s
  | run now =>
    simp only [perform]
    unfold run
    rw [prepare_plain, andThen_plain (execute_plain c), andThen_plain (populate_plain now)]
    simp only [release_plain]

end Plain

/-! ### What an operation does to the lists -/

variable {c : Context σ} {s : Session (Audit σ)} {now : Int}

/-- The queries of a preparation neither take a snapshot nor give one back. -/
theorem seed_lists (f : Feed σ) (token : Token) (cache : CacheHandle) (rs : List Requirement)
    (s : Seeding (Audit σ)) :
    (seed f.audited token cache rs s).2.world.feed.taken = s.world.feed.taken ∧
      (seed f.audited token cache rs s).2.world.feed.returned = s.world.feed.returned := by
  induction rs generalizing s with
  | nil => exact ⟨rfl, rfl⟩
  | cons r rest ih =>
    rw [seed]
    split_ifs with hseeded
    · exact ih s
    · simp only
      split
      · split
        · exact ih _
        · exact ⟨rfl, rfl⟩
      · exact ih _

/-- What a cycle has in custody when so many of its preparations have been broken off. -/
structure Custody (s : Session (Audit σ)) (brokenOff : Nat) : Prop where
  length_le : s.world.feed.taken.length ≤ brokenOff + 1
  /-- A cycle that is new takes part in no more than the preparations that were broken off. -/
  created : s.cycle.stage = .created → s.world.feed.taken.length ≤ brokenOff
  /-- As long as the cycle lives, it holds the last snapshot and has given back none. -/
  held : s.cycle.stage ≠ .released →
    s.world.feed.returned = [] ∧ s.cycle.snapshot = s.world.feed.taken.getLast?
  back : s.cycle.stage = .released → s.world.feed.returned = s.world.feed.taken.getLast?.toList

namespace Custody
variable {n : Nat}

theorem fresh (start : σ) (caches : CacheStore) (c : Cycle) (hstage : c.stage = .created)
    (hsnapshot : c.snapshot = none) : Custody ⟨{ feed := { state := start }, caches }, c⟩ 0 where
  length_le := Nat.zero_le _
  created _ := Nat.le_refl _
  held _ := ⟨rfl, hsnapshot⟩
  back h := by simp [hstage] at h

/-- An operation that leaves the feed and the snapshot alone and neither begins nor ends the life of the
cycle. -/
theorem keep (h : Custody s n) {s' : Session (Audit σ)} (hfeed : s'.world.feed = s.world.feed)
    (hsnapshot : s'.cycle.snapshot = s.cycle.snapshot)
    (hcreated : s'.cycle.stage = .created ↔ s.cycle.stage = .created)
    (hreleased : s'.cycle.stage = .released ↔ s.cycle.stage = .released) : Custody s' n where
  length_le := by simpa only [hfeed] using h.length_le
  created := by simpa only [hfeed, hcreated] using h.created
  held := by simpa only [hfeed, hsnapshot, ne_eq, hreleased] using h.held
  back := by simpa only [hfeed, hreleased] using h.back

theorem execute (h : Custody s n) : Custody (s.execute c.audited).2 n := by
  have hcases := s.execute_cases c.audited
  generalize s.execute c.audited = after at hcases
  cases hcases with
  | refused => exact h
  | ran stage => exact h.keep rfl rfl (by simp [started, absorb, stage]) (by simp [started, absorb, stage])

theorem populate (h : Custody s n) : Custody (s.populate now).2 n := by
  have hcases := s.populate_cases now
  generalize s.populate now = after at hcases
  cases hcases with
  | refused | unread => exact h
  | filled stage =>
    have hstage : s.cycle.stage ≠ .created ∧ s.cycle.stage ≠ .released := by
      constructor <;> rintro he <;> simp [he, Operation.allowed] at stage
    exact h.keep rfl rfl (by simp [hstage.1]) (by simp [hstage.2])

/-- A release gives back what is held, and that is the last snapshot. -/
theorem release (h : Custody s n) {k : Nat} (hk : s.world.feed.taken.length ≤ k + 1) :
    Custody (s.release c.audited).2 k := by
  have hcases := s.release_cases c.audited
  generalize s.release c.audited = after at hcases
  cases hcases with
  | refused stage =>
    exact ⟨hk, fun hnew => by simp [stage] at hnew, fun hlive => absurd stage hlive, h.back⟩
  | nothing stage snapshot =>
    obtain ⟨hreturned, hlast⟩ := h.held stage
    refine ⟨hk, fun hnew => (by cases hnew), fun hlive => absurd rfl hlive, fun _ => ?_⟩
    simp [ended, hreturned, ← hlast, snapshot]
  | back stage snapshot =>
    obtain ⟨hreturned, hlast⟩ := h.held stage
    refine ⟨hk, fun hnew => (by cases hnew), fun hlive => absurd rfl hlive, fun _ => ?_⟩
    simp [giveBack, ended, Context.audited, hreturned, ← hlast, snapshot]

/-- A new cycle that takes a snapshot holds it all through the seeding. -/
theorem take (h : Custody s n) (hstage : s.cycle.stage = .created) {token : Token} {feed : Audit σ}
    {handle : CacheHandle} {acquired : Session (Audit σ)} {outcome : Except Failure Unit}
    {seeding : Seeding (Audit σ)}
    (hanswer : c.audited.feed.snapshot s.world.feed now = (.ok token, feed))
    (hopened : (s.withFeed feed).acquire token = (handle, acquired))
    (hseeded : seed c.audited.feed token handle acquired.cycle.model.liveData.elements
      { world := acquired.world } = (outcome, seeding)) :
    seeding.world.feed.taken.length ≤ n + 1 ∧ seeding.world.feed.returned = [] ∧
      acquired.cycle.snapshot = seeding.world.feed.taken.getLast? ∧ acquired.cycle.stage = .created := by
  obtain ⟨htaken, hreturned⟩ := Feed.audited_snapshot_ok hanswer
  obtain ⟨-, hfeed, hcycle⟩ := acquire_eq hopened
  obtain ⟨htaken', hreturned'⟩ := seed_lists c.feed token handle
    acquired.cycle.model.liveData.elements { world := acquired.world }
  rw [show c.feed.audited = c.audited.feed from rfl, hseeded] at htaken' hreturned'
  rw [htaken', hreturned', hfeed, hcycle]
  have hcreated := h.created hstage
  have hnone := (h.held (by simp [hstage])).1
  simp [withFeed, htaken, hreturned, hcreated, hnone, hstage]

/-- A preparation takes one snapshot at most, and a cycle that has taken one and stays as new has been
broken off. -/
theorem prepare (h : Custody s n) :
    Custody (s.prepare c.audited now).2
        (n + if Request.BrokenOff (.prepare now, (s.prepare c.audited now).1) then 1 else 0) ∧
      (s.prepare c.audited now).2.world.feed.taken.length ≤ n + 1 := by
  have hcases := s.prepare_cases c.audited now
  generalize s.prepare c.audited now = after at hcases
  cases hcases with
  | @refused stage e refusal =>
    have hother : Request.BrokenOff (.prepare now, .error e) = false := by
      rw [Cycle.expect_error (by simpa [Operation.allowed] using stage), Except.error.injEq] at refusal
      rw [← refusal]
      split_ifs <;> rfl
    simpa [hother] using ⟨h, h.length_le⟩
  | noSnapshot stage answer =>
    obtain ⟨htaken, hreturned⟩ := Feed.audited_snapshot_error answer
    obtain ⟨hnone, hlast⟩ := h.held (by simp [stage])
    have hlength := h.length_le
    have hcreated := h.created stage
    rw [← htaken] at hlength hcreated hlast
    rw [← hreturned] at hnone
    exact ⟨⟨hlength, fun _ => hcreated, fun _ => ⟨hnone, hlast⟩, fun hend => by simp [withFeed, stage] at hend⟩,
      hlength⟩
  | brokenOff stage answer opened seeded =>
    obtain ⟨hlength, hnone, hlast, hstage⟩ := h.take stage answer opened seeded
    exact ⟨⟨Nat.le_succ_of_le hlength, fun _ => hlength, fun _ => ⟨hnone, hlast⟩,
      fun hend => by simp [hstage] at hend⟩, hlength⟩
  | done stage answer opened seeded =>
    obtain ⟨hlength, hnone, hlast, -⟩ := h.take stage answer opened seeded
    exact ⟨⟨hlength, fun hnew => (by cases hnew), fun _ => ⟨hnone, hlast⟩, fun hend => (by cases hend)⟩, hlength⟩

theorem run (h : Custody s n) : Custody (Session.run c.audited now s).2 n := by
  obtain ⟨hprepared, hlength⟩ : _ ∧ (s.prepare c.audited now).2.world.feed.taken.length ≤ n + 1 := h.prepare
  refine run_keeps (P := fun s' => Custody s' _ ∧ s'.world.feed.taken.length ≤ n + 1)
    (Q := fun s' => Custody s' n) ⟨hprepared, hlength⟩ ?_ ?_ ?_
  · rintro s' ⟨hs, hle⟩
    exact ⟨hs.execute, by rwa [execute_feed]⟩
  · rintro s' ⟨hs, hle⟩
    exact ⟨hs.populate, by rwa [populate_world]⟩
  · rintro s' ⟨hs, hle⟩
    exact hs.release hle

theorem perform (h : Custody s n) (request : Request) :
    Custody (s.perform c.audited request).2
      (n + if Request.BrokenOff (request, (s.perform c.audited request).1) then 1 else 0) := by
  cases request with
  | prepare now => exact h.prepare.1
  | execute => exact h.execute
  | populate now => exact h.populate
  | release => exact h.release h.length_le
  | run now => exact h.run

theorem performAll (h : Custody s n) (requests : List Request) :
    Custody (Session.performAll c.audited requests s)
      (n + (outcomes c.audited requests s).countP Request.BrokenOff) := by
  induction requests generalizing s n with
  | nil => exact h
  | cons request rest ih =>
    have hrest := ih (h.perform (c := c) request)
    rw [outcomes, List.countP_cons]
    have hsum : ∀ a b : Nat, n + a + b = n + (b + a) := by omega
    rwa [hsum] at hrest

end Custody

/-- A cycle that is dropped is left as if it had been released, and one that has been released gives back
nothing more. -/
theorem abandon_eq {σ : Type} (c : Context σ) (s : Session σ) :
    s.abandon c = (s.release c).2.world ∧ (s.release c).2.abandon c = (s.release c).2.world := by
  have hcases := s.release_cases c
  unfold abandon
  generalize hafter : s.release c = after at hcases
  cases hcases with
  | refused stage => simp [stage]
  | nothing stage snapshot => simp [snapshot, ended]
  | back stage snapshot => simp [stage, snapshot, giveBack, ended]

theorem perm_getLast?_iff {α : Type} (l : List α) : l.getLast?.toList.Perm l ↔ l.length ≤ 1 := by
  constructor
  · intro hperm
    rw [← hperm.length_eq]
    cases l.getLast? <;> simp
  · intro hle
    match l, hle with
    | [], _ => exact List.Perm.refl _
    | [a], _ => exact List.Perm.refl _

/-- A new cycle over a feed that has handed out nothing yet. -/
def opening (start : σ) (caches : CacheStore) (id : Uuid) (view : String) (m : Model) (results : Results)
    (cancelled : Bool) : Session (Audit σ) :=
  ⟨{ feed := { state := start }, caches }, { Cycle.create id view m results with cancelled }⟩

/-- The feed when the cycle is dropped. -/
def closing (c : Context σ) (requests : List Request) (s : Session (Audit σ)) : Audit σ :=
  ((performAll c.audited requests s).abandon c.audited).feed

/-- Whatever is asked of a new cycle, and however often, in the end it gives back one snapshot, the last
that it has taken, whether it is released or dropped. So each snapshot is given back once exactly where it
has taken one at most; and it has taken one more at most than preparations were broken off. -/
theorem last_snapshot_given_back (c : Context σ) (start : σ) (caches : CacheStore) (id : Uuid) (view : String)
    (m : Model) (results : Results) (cancelled : Bool) (requests : List Request) :
    let s := opening start caches id view m results cancelled
    let audit := closing c requests s
    audit = closing c (requests ++ [.release]) s ∧
      audit.returned = audit.taken.getLast?.toList ∧
      (audit.returned.Perm audit.taken ↔ audit.taken.length ≤ 1) ∧
      audit.taken.length ≤ (outcomes c.audited requests s).countP Request.BrokenOff + 1 := by
  intro s audit
  have hcustody : Custody (performAll c.audited requests s) _ :=
    (Custody.fresh start caches { Cycle.create id view m results with cancelled } rfl rfl).performAll requests
  obtain ⟨hdropped, hagain⟩ := abandon_eq c.audited (performAll c.audited requests s)
  have hended := hcustody.release (c := c) hcustody.length_le
  have haudit : audit = ((performAll c.audited requests s).release c.audited).2.world.feed :=
    congrArg World.feed hdropped
  have hreleased : audit = closing c (requests ++ [.release]) s := by
    rw [haudit, ← hagain, closing, performAll_append]
    rfl
  have hback := hended.back (release_stage _ _)
  have hlength := hended.length_le
  rw [← haudit] at hback hlength
  rw [Nat.zero_add] at hlength
  exact ⟨hreleased, hback, by rw [hback, perm_getLast?_iff], hlength⟩

/-! A cache that is open already when the cycle comes to it, with the value that the cycle would seed. -/

def seededStore : CacheStore :=
  let (handle, caches) := CacheStore.empty.acquire "view" ⟨1⟩
  match caches.write handle ⟨sampleValue "Rate", .text "0"⟩ with
  | .ok caches => caches
  | .error _ => caches

/-- The preparation is broken off and made once more: the first snapshot is never given back. -/
theorem first_snapshot_kept :
    ∃ m, sampleBlueprint.build = .ok m ∧
      (closing { config := {}, feed := ScriptedFeed.source } [.prepare 0, .prepare 0, .release]
        (opening { upcoming := [⟨1⟩, ⟨2⟩], values := sampleFeed.current } seededStore ⟨1⟩ "view" m
          (.empty "view") false)).taken = [⟨1⟩, ⟨2⟩] ∧
      (closing { config := {}, feed := ScriptedFeed.source } [.prepare 0, .prepare 0, .release]
        (opening { upcoming := [⟨1⟩, ⟨2⟩], values := sampleFeed.current } seededStore ⟨1⟩ "view" m
          (.empty "view") false)).returned = [⟨2⟩] :=
  ⟨_, rfl, rfl, rfl⟩

end Session

end CalcCycle
