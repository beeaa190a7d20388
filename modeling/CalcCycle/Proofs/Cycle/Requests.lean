import CalcCycle.Proofs.Cycle.Completion

/-! The operations of a cycle as requests, which may come in any order and again and again, and the
cases of each operation. Facts about all requests are proved by going through these cases. -/

namespace CalcCycle

/-- A call of one of the operations of a cycle, with the reading of the clock where it reads one. -/
inductive Request
  | prepare (now : Int)
  | execute
  | populate (now : Int)
  | release
  | run (now : Int)

namespace Cycle
variable {c : Cycle} {op : Operation}

theorem released_notMem_allowed (op : Operation) : Stage.released ∉ op.allowed := by
  cases op <;> decide

/-- An operation goes ahead in the stages that allow it. -/
theorem expect_ok (h : c.stage ∈ op.allowed) : c.expect op = .ok () := by
  have hlive : c.stage ≠ .released := fun he => released_notMem_allowed op (he ▸ h)
  simp [expect, hlive, h]

/-- In all other stages it is refused, and not for what a cache or a feed says. -/
theorem expect_error (h : c.stage ∉ op.allowed) :
    c.expect op = .error (if c.stage = .released then .cycleReleased else .lifecycle op.text c.stage) := by
  unfold expect
  split_ifs with hreleased
  · rfl
  · rfl

theorem stage_mem_of_expect (h : c.expect op = .ok ()) : c.stage ∈ op.allowed := by
  by_contra hnot
  rw [expect_error hnot] at h
  cases h

theorem stage_notMem_of_expect {e : Failure} (h : c.expect op = .error e) : c.stage ∉ op.allowed := by
  intro hallowed
  rw [expect_ok hallowed] at h
  cases h

/-- A release is refused after a release only. -/
theorem expect_release (h : c.stage ≠ .released) : c.expect .releaseResources = .ok () := by
  apply expect_ok
  cases hs : c.stage <;> simp_all [Operation.allowed]

/-- A cycle that goes on has a snapshot and a cache, or it is broken. -/
theorem acquired_cases (c : Cycle) :
    (∃ token handle, c.snapshot = some token ∧ c.cache = some handle ∧ c.acquired = .ok (token, handle)) ∨
      ((c.snapshot = none ∨ c.cache = none) ∧
        c.acquired = .error (.invariant "cycle has no snapshot or cache after preparing inputs")) := by
  unfold acquired
  cases hsnapshot : c.snapshot with
  | none => exact Or.inr ⟨Or.inl rfl, rfl⟩
  | some token =>
    cases hcache : c.cache with
    | none => exact Or.inr ⟨Or.inr rfl, rfl⟩
    | some handle => exact Or.inl ⟨token, handle, rfl, rfl, rfl⟩

end Cycle

namespace Session
variable {σ : Type}

def perform (c : Context σ) (s : Session σ) : Request → Except Failure Unit × Session σ
  | .prepare now => s.prepare c now
  | .execute => s.execute c
  | .populate now => s.populate now
  | .release => s.release c
  | .run now => run c now s

/-- The session after the requests, one after another, whatever comes of each. -/
def performAll (c : Context σ) : List Request → Session σ → Session σ
  | [], s => s
  | request :: rest, s => performAll c rest (s.perform c request).2

/-- The requests with what came of them. -/
def outcomes (c : Context σ) : List Request → Session σ → List (Request × Except Failure Unit)
  | [], _ => []
  | request :: rest, s =>
    (request, (s.perform c request).1) :: outcomes c rest (s.perform c request).2

/-! ### The cases of the operations -/

/-- The session with another state of the feed. -/
def withFeed (s : Session σ) (feed : σ) : Session σ := { s with world := { s.world with feed } }

/-- The cycle holds the snapshot and the cache that is open for it, and is as it was otherwise. -/
theorem acquire_eq {s acquired : Session σ} {token : Token} {handle : CacheHandle}
    (h : s.acquire token = (handle, acquired)) :
    s.world.caches.acquire s.cycle.view token = (handle, acquired.world.caches) ∧
      acquired.world.feed = s.world.feed ∧
      acquired.cycle =
        { s.cycle with
          snapshot := some token
          cache := some handle
          results := { s.cycle.results with inputsAt := some token, cycleId := some s.cycle.id } } := by
  cases h
  exact ⟨rfl, rfl, rfl⟩

/-- The session with the values seeded and the inputs prepared. -/
def prepared (s : Session σ) (seeding : Seeding σ) : Session σ where
  world := seeding.world
  cycle :=
    { s.cycle with
      stage := .inputsPrepared
      missing := seeding.missing
      stats :=
        { s.cycle.stats with
          liveDataRequested := s.cycle.model.liveData.size
          missingLiveData := seeding.missing.size } }

theorem seed_cons (feed : Feed σ) (token : Token) (cache : CacheHandle) {r : Requirement}
    (rest : List Requirement) {s : Seeding σ} (h : r.resolve ∉ s.seeded) :
    seed feed token cache (r :: rest) s =
      match (feed.query s.world.feed token r).1 with
      | .ok (some p) =>
        match s.world.caches.write cache ⟨r.resolve, p⟩ with
        | .ok caches =>
          seed feed token cache rest
            { s with
              world := ⟨(feed.query s.world.feed token r).2, caches⟩
              seeded := r.resolve :: s.seeded }
        | .error e => (.error (.cache e), { s with world := ⟨(feed.query s.world.feed token r).2, s.world.caches⟩ })
      | _ =>
        seed feed token cache rest
          { s with
            world := ⟨(feed.query s.world.feed token r).2, s.world.caches⟩
            missing := s.missing.insert r } := by
  rw [seed]
  exact if_neg h

/-- Only the cache can break off the seeding. -/
theorem seed_error {feed : Feed σ} {token : Token} {cache : CacheHandle} {e : Failure} {seeding : Seeding σ}
    (rs : List Requirement) (s : Seeding σ) (h : seed feed token cache rs s = (.error e, seeding)) :
    ∃ reason, e = .cache reason := by
  induction rs generalizing s with
  | nil => cases h
  | cons r rest ih =>
    rw [seed] at h
    split_ifs at h with hseeded
    · exact ih s h
    · simp only at h
      split at h
      · split at h
        · exact ih _ h
        · next reason _ =>
          cases h
          exact ⟨reason, rfl⟩
      · exact ih _ h

/-- What may come of a preparation. -/
inductive Prepares (c : Context σ) (now : Int) (s : Session σ) : Except Failure Unit × Session σ → Prop
  | refused (stage : s.cycle.stage ≠ .created) {e} (refusal : s.cycle.expect .prepareInputs = .error e) :
    Prepares c now s (.error e, s)
  | noSnapshot (stage : s.cycle.stage = .created) {e feed}
    (answer : c.feed.snapshot s.world.feed now = (.error e, feed)) :
    Prepares c now s (.error (.feed e), s.withFeed feed)
  | brokenOff (stage : s.cycle.stage = .created) {token feed handle acquired reason seeding}
    (answer : c.feed.snapshot s.world.feed now = (.ok token, feed))
    (opened : (s.withFeed feed).acquire token = (handle, acquired))
    (seeded : seed c.feed token handle acquired.cycle.model.liveData.elements { world := acquired.world } =
      (.error (.cache reason), seeding)) :
    Prepares c now s (.error (.cache reason), { acquired with world := seeding.world })
  | done (stage : s.cycle.stage = .created) {token feed handle acquired seeding}
    (answer : c.feed.snapshot s.world.feed now = (.ok token, feed))
    (opened : (s.withFeed feed).acquire token = (handle, acquired))
    (seeded : seed c.feed token handle acquired.cycle.model.liveData.elements { world := acquired.world } =
      (.ok (), seeding)) :
    Prepares c now s (.ok (), acquired.prepared seeding)

theorem prepare_eq (c : Context σ) (now : Int) {s : Session σ} (h : s.cycle.stage = .created) :
    s.prepare c now =
      match c.feed.snapshot s.world.feed now with
      | (.error e, feed) => (.error (.feed e), s.withFeed feed)
      | (.ok token, feed) =>
        ((s.withFeed feed).acquire token).2.seedAll c token ((s.withFeed feed).acquire token).1 := by
  have hexpect : s.cycle.expect .prepareInputs = .ok () := Cycle.expect_ok (by simp [h, Operation.allowed])
  unfold prepare
  rw [hexpect]
  cases c.feed.snapshot s.world.feed now with
  | mk answer feed => cases answer <;> rfl

theorem prepare_cases (c : Context σ) (now : Int) (s : Session σ) : Prepares c now s (s.prepare c now) := by
  by_cases hstage : s.cycle.stage = .created
  · rw [prepare_eq c now hstage]
    cases hanswer : c.feed.snapshot s.world.feed now with
    | mk answer feed =>
      cases answer with
      | error e => exact .noSnapshot hstage hanswer
      | ok token =>
        cases hopened : (s.withFeed feed).acquire token with
        | mk handle acquired =>
          simp only [hopened, seedAll]
          cases hseed : seed c.feed token handle acquired.cycle.model.liveData.elements
              { world := acquired.world } with
          | mk outcome seeding =>
            cases outcome with
            | error e =>
              obtain ⟨reason, rfl⟩ := seed_error _ _ hseed
              exact .brokenOff hstage hanswer hopened hseed
            | ok u => exact .done hstage hanswer hopened hseed
  · have hnot : s.cycle.stage ∉ Operation.allowed .prepareInputs := by simpa [Operation.allowed]
    have hexpect := Cycle.expect_error hnot
    unfold prepare
    rw [hexpect]
    exact .refused hstage hexpect

/-- What may come of an execution. -/
inductive Executes (c : Context σ) (s : Session σ) : Except Failure Unit × Session σ → Prop
  | refused (broken : s.cycle.stage ≠ .inputsPrepared ∨ s.cycle.snapshot = none ∨ s.cycle.cache = none) {e} :
    Executes c s (.error e, s)
  | ran (stage : s.cycle.stage = .inputsPrepared) {token handle} (snapshot : s.cycle.snapshot = some token)
    (cache : s.cycle.cache = some handle) {outcome p}
    (graphs : runGraphs c.pool (s.setting c token handle) s.cycle.model.schedule s.progress = (outcome, p)) :
    Executes c s (outcome, s.started.absorb p)

theorem execute_cases (c : Context σ) (s : Session σ) : Executes c s (s.execute c) := by
  by_cases hstage : s.cycle.stage = .inputsPrepared
  · have hexpect : s.cycle.expect .executePlans = .ok () := Cycle.expect_ok (by simp [hstage, Operation.allowed])
    rcases s.cycle.acquired_cases with ⟨token, handle, hsnapshot, hcache, -⟩ | ⟨hnone, hacquired⟩
    · rw [execute_eq hstage hsnapshot hcache]
      exact .ran hstage hsnapshot hcache rfl
    · unfold execute
      rw [hexpect]
      simp only [hacquired]
      exact .refused (Or.inr hnone)
  · have hnot : s.cycle.stage ∉ Operation.allowed .executePlans := by simpa [Operation.allowed]
    have hexpect := Cycle.expect_error hnot
    unfold execute
    rw [hexpect]
    exact .refused (Or.inl hstage)

/-- What may come of collecting the results. -/
inductive Populates (now : Int) (s : Session σ) : Except Failure Unit × Session σ → Prop
  | refused (broken : s.cycle.stage ∉ Operation.allowed .populateResults ∨ s.cycle.snapshot = none ∨
      s.cycle.cache = none) {e} : Populates now s (.error e, s)
  | unread (stage : s.cycle.stage ∈ Operation.allowed .populateResults) {handle}
    (cache : s.cycle.cache = some handle) {e}
    (collected : collect s.world.caches handle (reported s.cycle.model) = .error e) :
    Populates now s (.error (.cache e), s)
  | filled (stage : s.cycle.stage ∈ Operation.allowed .populateResults) {handle}
    (cache : s.cycle.cache = some handle) {vs}
    (collected : collect s.world.caches handle (reported s.cycle.model) = .ok vs) :
    Populates now s (.ok (),
      { s with
        cycle :=
          { s.cycle with
            results := { s.cycle.results.addAll vs with computedAt := some (.ofMillis now) }
            stats := { s.cycle.stats with resultValues := (s.cycle.results.addAll vs).size }
            stage := .resultsPopulated } })

theorem populate_cases (now : Int) (s : Session σ) : Populates now s (s.populate now) := by
  by_cases hstage : s.cycle.stage ∈ Operation.allowed .populateResults
  · rcases s.cycle.acquired_cases with ⟨token, handle, -, hcache, hacquired⟩ | ⟨hnone, hacquired⟩
    · cases hcollect : collect s.world.caches handle (reported s.cycle.model) with
      | error e =>
        unfold populate
        simp only [Cycle.expect_ok hstage, hacquired, hcollect]
        exact .unread hstage hcache hcollect
      | ok vs =>
        unfold populate
        simp only [Cycle.expect_ok hstage, hacquired, hcollect]
        exact .filled hstage hcache hcollect
    · unfold populate
      simp only [Cycle.expect_ok hstage, hacquired]
      exact .refused (Or.inr hnone)
  · unfold populate
    simp only [Cycle.expect_error hstage]
    exact .refused (Or.inl hstage)

def ended (s : Session σ) : Session σ := { s with cycle := { s.cycle with stage := .released } }

/-- What may come of a release. -/
inductive Releases (c : Context σ) (s : Session σ) : Except Failure Unit × Session σ → Prop
  | refused (stage : s.cycle.stage = .released) : Releases c s (.error .cycleReleased, s)
  | nothing (stage : s.cycle.stage ≠ .released) (snapshot : s.cycle.snapshot = none) :
    Releases c s (.ok (), s.ended)
  | back (stage : s.cycle.stage ≠ .released) {token} (snapshot : s.cycle.snapshot = some token) :
    Releases c s (s.ended.giveBack c token)

theorem release_cases (c : Context σ) (s : Session σ) : Releases c s (s.release c) := by
  by_cases hstage : s.cycle.stage = .released
  · have hexpect : s.cycle.expect .releaseResources = .error .cycleReleased := by simp [Cycle.expect, hstage]
    unfold release
    rw [hexpect]
    exact .refused hstage
  · have hexpect := Cycle.expect_release hstage
    unfold release
    rw [hexpect]
    simp only
    split
    · next hsnapshot => exact .nothing hstage hsnapshot
    · next hsnapshot => exact .back hstage hsnapshot

/-! ### What holds all along -/

theorem release_stage (c : Context σ) (s : Session σ) : (s.release c).2.cycle.stage = .released := by
  have hcases := s.release_cases c
  generalize s.release c = after at hcases
  cases hcases with
  | refused stage => exact stage
  | nothing => rfl
  | back => rfl

theorem execute_feed (c : Context σ) (s : Session σ) : (s.execute c).2.world.feed = s.world.feed := by
  have hcases := s.execute_cases c
  generalize s.execute c = after at hcases
  cases hcases <;> rfl

theorem populate_world (now : Int) (s : Session σ) : (s.populate now).2.world = s.world := by
  have hcases := s.populate_cases now
  generalize s.populate now = after at hcases
  cases hcases <;> rfl

theorem andThen_keeps {P : Session σ → Prop} {r : Except Failure Unit × Session σ}
    {next : Session σ → Except Failure Unit × Session σ} (h : P r.2) (hnext : ∀ s, P s → P (next s).2) :
    P (andThen r next).2 := by
  obtain ⟨outcome, s⟩ := r
  cases outcome with
  | error e => exact h
  | ok u => exact hnext s h

/-- A cycle that is run is released, from wherever the operations before have brought it. -/
theorem run_keeps {c : Context σ} {now : Int} {s : Session σ} {P Q : Session σ → Prop}
    (hprepare : P (s.prepare c now).2) (hexecute : ∀ s, P s → P (s.execute c).2)
    (hpopulate : ∀ s, P s → P (s.populate now).2) (hrelease : ∀ s, P s → Q (s.release c).2) :
    Q (run c now s).2 :=
  hrelease _ (andThen_keeps (andThen_keeps hprepare hexecute) hpopulate)

theorem performAll_append (c : Context σ) (rs rs' : List Request) (s : Session σ) :
    performAll c (rs ++ rs') s = performAll c rs' (performAll c rs s) := by
  induction rs generalizing s with
  | nil => rfl
  | cons r rest ih => exact ih _

end Session

end CalcCycle
