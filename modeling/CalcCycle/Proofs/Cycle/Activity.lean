import CalcCycle.Proofs.Cycle.Requests

/-! The operations of a cycle step by step. A step takes the snapshot, or opens the cache, or asks for one
requirement, or makes one move in the run of a graph, and so on; between two steps of a cycle anything may
happen to the feed and the caches. Where nothing happens in between, the steps of a call do what the call
does. -/

namespace CalcCycle

/-- A run that finds the caches as they are. -/
def GraphRun.withCaches (r : GraphRun) (caches : CacheStore) : GraphRun := { r with state := { r.state with caches } }

/-- A call of an operation, with the reading of the clock at the time. -/
abbrev OperationCall := Operation × Int

def OperationCall.request : OperationCall → Request
  | (.prepareInputs, now) => .prepare now
  | (.executePlans, _) => .execute
  | (.populateResults, now) => .populate now
  | (.releaseResources, _) => .release

namespace Session

/-- How far the call of an operation has come, with what only the call knows. -/
inductive Activity
  | idle
  /-- The snapshot has been taken. -/
  | frozen (token : Token)
  /-- Requirements are left to be asked for. -/
  | asking (token : Token) (handle : CacheHandle) (rest : List Requirement) (seeded : List Specification)
    (missing : SortedSet Requirement)
  /-- The feed has answered, and the answer has not been written. -/
  | answered (token : Token) (handle : CacheHandle) (v : Computed) (rest : List Requirement)
    (seeded : List Specification) (missing : SortedSet Requirement)
  /-- Graphs are left to be run. The caches in the progress are of no account. -/
  | between (w : RunSetting) (rest : List Graph) (p : Progress)
  | inside (w : RunSetting) (g : Graph) (rest : List Graph) (reports : List GraphReport) (r : GraphRun)
  /-- Specifications are left to be looked up. -/
  | collecting (handle : CacheHandle) (now : Int) (rest : List Specification) (found : List Computed)
  /-- The snapshot has been given back, and the cache is open. -/
  | closing (token : Token)

variable {σ : Type}

def withCaches (s : Session σ) (caches : CacheStore) : Session σ := { s with world := { s.world with caches } }

def Progress.withCaches (p : Progress) (caches : CacheStore) : Progress := { p with state := { p.state with caches } }

/-- The session with the values found among the results. -/
def filled (s : Session σ) (now : Int) (found : List Computed) : Session σ where
  world := s.world
  cycle :=
    { s.cycle with
      results := { s.cycle.results.addAll found with computedAt := some (.ofMillis now) }
      stats := { s.cycle.stats with resultValues := (s.cycle.results.addAll found).size }
      stage := .resultsPopulated }

/-- `Advances c allowed s a call s' a'`: a step of the cycle leads from `s` to `s'` and from the activity
`a` to `a'`; it begins the call, if one is given, and goes on with the last one otherwise. The moves in
the run of a graph are those allowed. -/
inductive Advances (c : Context σ) (allowed : Move → Prop) :
    Session σ → Activity → Option OperationCall → Session σ → Activity → Prop
  | refused {s op now e} (refusal : s.cycle.expect op = .error e) :
    Advances c allowed s .idle (some (op, now)) s .idle
  | lacking {s op now e} (admitted : s.cycle.expect op = .ok ())
    (needs : op = .executePlans ∨ op = .populateResults) (lack : s.cycle.acquired = .error e) :
    Advances c allowed s .idle (some (op, now)) s .idle
  | noSnapshot {s now e feed} (admitted : s.cycle.expect .prepareInputs = .ok ())
    (answer : c.feed.snapshot s.world.feed now = (.error e, feed)) :
    Advances c allowed s .idle (some (.prepareInputs, now)) (s.withFeed feed) .idle
  | freeze {s now token feed} (admitted : s.cycle.expect .prepareInputs = .ok ())
    (answer : c.feed.snapshot s.world.feed now = (.ok token, feed)) :
    Advances c allowed s .idle (some (.prepareInputs, now)) (s.withFeed feed) (.frozen token)
  | acquire {s token} :
    Advances c allowed s (.frozen token) none (s.acquire token).2
      (.asking token (s.acquire token).1 s.cycle.model.liveData.elements [] .empty)
  | skip {s token handle r rest seeded missing} (known : r.resolve ∈ seeded) :
    Advances c allowed s (.asking token handle (r :: rest) seeded missing) none s
      (.asking token handle rest seeded missing)
  | ask {s token handle r rest seeded missing p feed} (new : r.resolve ∉ seeded)
    (answer : c.feed.query s.world.feed token r = (.ok (some p), feed)) :
    Advances c allowed s (.asking token handle (r :: rest) seeded missing) none (s.withFeed feed)
      (.answered token handle ⟨r.resolve, p⟩ rest seeded missing)
  | miss {s token handle r rest seeded missing answer feed} (new : r.resolve ∉ seeded)
    (asked : c.feed.query s.world.feed token r = (answer, feed)) (unknown : ∀ p, answer ≠ .ok (some p)) :
    Advances c allowed s (.asking token handle (r :: rest) seeded missing) none (s.withFeed feed)
      (.asking token handle rest seeded (missing.insert r))
  | store {s token handle v rest seeded missing caches} (written : s.world.caches.write handle v = .ok caches) :
    Advances c allowed s (.answered token handle v rest seeded missing) none (s.withCaches caches)
      (.asking token handle rest (v.specification :: seeded) missing)
  | clash {s token handle v rest seeded missing e} (refused : s.world.caches.write handle v = .error e) :
    Advances c allowed s (.answered token handle v rest seeded missing) none s .idle
  | prepared {s token handle seeded missing} :
    Advances c allowed s (.asking token handle [] seeded missing) none
      (s.prepared ⟨s.world, seeded, missing⟩) .idle
  | execute {s now token handle} (admitted : s.cycle.expect .executePlans = .ok ())
    (held : s.cycle.acquired = .ok (token, handle)) :
    Advances c allowed s .idle (some (.executePlans, now)) s.started
      (.between (s.setting c token handle) s.cycle.model.schedule s.progress)
  | enter {s w g rest p} (going : p.state.cancelled = false) :
    Advances c allowed s (.between w (g :: rest) p) none s
      (.inside w g rest p.reports (.start w g p.state p.lastJob))
  | move {s w g rest reports r m r'} (ok : allowed m) (step : (r.withCaches s.world.caches).step w m = some r') :
    Advances c allowed s (.inside w g rest reports r) none (s.withCaches r'.state.caches)
      (.inside w g rest reports r')
  | leave {s w g rest reports r report} (done : r.isDone = true) (result : (r.closed w g).result = .ok report) :
    Advances c allowed s (.inside w g rest reports r) none s
      (.between w rest ⟨(r.closed w g).state, r.lastJob, reports ++ [report]⟩)
  | abort {s w g rest reports r e} (done : r.isDone = true) (result : (r.closed w g).result = .error e) :
    Advances c allowed s (.inside w g rest reports r) none
      (s.absorb (Progress.withCaches ⟨(r.closed w g).state, r.lastJob, reports⟩ s.world.caches)) .idle
  | executed {s w rest p} (ended : rest = [] ∨ p.state.cancelled = true) :
    Advances c allowed s (.between w rest p) none (s.absorb (p.withCaches s.world.caches)) .idle
  | populate {s now token handle} (admitted : s.cycle.expect .populateResults = .ok ())
    (held : s.cycle.acquired = .ok (token, handle)) :
    Advances c allowed s .idle (some (.populateResults, now)) s
      (.collecting handle now (reported s.cycle.model) [])
  | look {s handle now spec rest found v} (read : s.world.caches.read handle spec = .ok v) :
    Advances c allowed s (.collecting handle now (spec :: rest) found) none s
      (.collecting handle now rest (found ++ v.toList))
  | unread {s handle now spec rest found e} (read : s.world.caches.read handle spec = .error e) :
    Advances c allowed s (.collecting handle now (spec :: rest) found) none s .idle
  | filled {s handle now found} :
    Advances c allowed s (.collecting handle now [] found) none (s.filled now found) .idle
  | nothing {s now} (admitted : s.cycle.expect .releaseResources = .ok ())
    (unheld : s.cycle.snapshot = none) :
    Advances c allowed s .idle (some (.releaseResources, now)) s.ended .idle
  | giveBack {s now token} (admitted : s.cycle.expect .releaseResources = .ok ())
    (held : s.cycle.snapshot = some token) :
    Advances c allowed s .idle (some (.releaseResources, now))
      (s.ended.withFeed (c.feed.release s.world.feed token).2) (.closing token)
  | close {s token} :
    Advances c allowed s (.closing token) none
      (s.withCaches (s.world.caches.release s.cycle.view token).2) .idle

/-- The steps that lead from `s₀` and `a₀` to `s` and `a`, with the calls that they begin. -/
inductive Runs (c : Context σ) (allowed : Move → Prop) (s₀ : Session σ) (a₀ : Activity) :
    List OperationCall → Session σ → Activity → Prop
  | start : Runs c allowed s₀ a₀ [] s₀ a₀
  | step {calls s a call s' a'} (before : Runs c allowed s₀ a₀ calls s a)
    (next : Advances c allowed s a call s' a') : Runs c allowed s₀ a₀ (calls ++ call.toList) s' a'

variable {c : Context σ} {allowed : Move → Prop} {s s' s'' : Session σ} {a a' a'' : Activity}
  {calls calls' : List OperationCall}

theorem Runs.trans (h : Runs c allowed s a calls s' a') (h' : Runs c allowed s' a' calls' s'' a'') :
    Runs c allowed s a (calls ++ calls') s'' a'' := by
  induction h' with
  | start => simpa using h
  | step _ next ih =>
    rw [← List.append_assoc]
    exact .step ih next

theorem Advances.runs {call : Option OperationCall} (h : Advances c allowed s a call s' a') :
    Runs c allowed s a call.toList s' a' :=
  .step .start h

/-! ### A call that is not disturbed -/

/-- Where the seeding has come from a session, the rest of it is asked for step by step. -/
theorem seed_runs (c : Context σ) (allowed : Move → Prop) (token : Token) (handle : CacheHandle) (cycle : Cycle)
    (rest : List Requirement) (seeding : Seeding σ) :
    Runs c allowed ⟨seeding.world, cycle⟩ (.asking token handle rest seeding.seeded seeding.missing) []
      ⟨(seed c.feed token handle rest seeding).2.world, cycle⟩
      (match seed c.feed token handle rest seeding with
        | (.ok (), after) => .asking token handle [] after.seeded after.missing
        | (.error _, _) => .idle) := by
  induction rest generalizing seeding with
  | nil => exact .start
  | cons r rest ih =>
    by_cases hseeded : r.resolve ∈ seeding.seeded
    · rw [seed, if_pos hseeded]
      exact (Advances.skip hseeded).runs.trans (ih seeding)
    · rw [seed_cons _ _ _ _ hseeded]
      cases hquery : c.feed.query seeding.world.feed token r with
      | mk answer feed =>
        simp only
        split
        · next p =>
          have hask : Runs c allowed ⟨seeding.world, cycle⟩
              (.asking token handle (r :: rest) seeding.seeded seeding.missing) []
              ⟨⟨feed, seeding.world.caches⟩, cycle⟩
              (.answered token handle ⟨r.resolve, p⟩ rest seeding.seeded seeding.missing) :=
            (Advances.ask hseeded hquery).runs
          cases hwrite : seeding.world.caches.write handle ⟨r.resolve, p⟩ with
          | ok caches =>
            have hstore : Runs c allowed ⟨⟨feed, seeding.world.caches⟩, cycle⟩
                (.answered token handle ⟨r.resolve, p⟩ rest seeding.seeded seeding.missing) []
                ⟨⟨feed, caches⟩, cycle⟩
                (.asking token handle rest (r.resolve :: seeding.seeded) seeding.missing) :=
              (Advances.store (s := ⟨⟨feed, seeding.world.caches⟩, cycle⟩) hwrite).runs
            exact (hask.trans hstore).trans (ih ⟨⟨feed, caches⟩, r.resolve :: seeding.seeded, seeding.missing⟩)
          | error e =>
            exact hask.trans (Advances.clash (s := ⟨⟨feed, seeding.world.caches⟩, cycle⟩) hwrite).runs
        · next hnone =>
          have hmiss : Runs c allowed ⟨seeding.world, cycle⟩
              (.asking token handle (r :: rest) seeding.seeded seeding.missing) []
              ⟨⟨feed, seeding.world.caches⟩, cycle⟩
              (.asking token handle rest seeding.seeded (seeding.missing.insert r)) :=
            (Advances.miss hseeded hquery hnone).runs
          exact hmiss.trans (ih ⟨⟨feed, seeding.world.caches⟩, seeding.seeded, seeding.missing.insert r⟩)

theorem prepare_runs (c : Context σ) (allowed : Move → Prop) (now : Int) (s : Session σ) :
    Runs c allowed s .idle [(.prepareInputs, now)] (s.prepare c now).2 .idle := by
  have hcases := s.prepare_cases c now
  generalize s.prepare c now = after at hcases
  cases hcases with
  | refused stage refusal => exact (Advances.refused refusal).runs
  | noSnapshot stage answer =>
    exact (Advances.noSnapshot (Cycle.expect_ok (by simp [stage, Operation.allowed])) answer).runs
  | @brokenOff stage token feed handle acquired reason seeding answer opened seeded =>
    have hadmitted : s.cycle.expect .prepareInputs = .ok () :=
      Cycle.expect_ok (by simp [stage, Operation.allowed])
    have hseed := seed_runs c allowed token handle acquired.cycle acquired.cycle.model.liveData.elements
      { world := acquired.world }
    rw [seeded] at hseed
    cases opened
    exact ((Advances.freeze hadmitted answer).runs.trans Advances.acquire.runs).trans hseed
  | @done stage token feed handle acquired seeding answer opened seeded =>
    have hadmitted : s.cycle.expect .prepareInputs = .ok () :=
      Cycle.expect_ok (by simp [stage, Operation.allowed])
    have hseed := seed_runs c allowed token handle acquired.cycle acquired.cycle.model.liveData.elements
      { world := acquired.world }
    rw [seeded] at hseed
    cases opened
    have hseeded := ((Advances.freeze hadmitted answer).runs.trans Advances.acquire.runs).trans hseed
    exact hseeded.trans (Advances.prepared (s := ⟨seeding.world, _⟩)).runs

/-- The run of a graph, move by move. -/
theorem Reached.runs (c : Context σ) {w : RunSetting} {g : Graph} {r₀ r : GraphRun} {past : History}
    (h : GraphRun.Reached allowed w r₀ past r) (feed : σ) (cycle : Cycle) (rest : List Graph)
    (reports : List GraphReport) :
    Runs c allowed ⟨⟨feed, r₀.state.caches⟩, cycle⟩ (.inside w g rest reports r₀) []
      ⟨⟨feed, r.state.caches⟩, cycle⟩ (.inside w g rest reports r) := by
  induction h with
  | start => exact .start
  | @move past r m r' _ ok step ih =>
    exact ih.trans (Advances.move (s := ⟨⟨feed, r.state.caches⟩, cycle⟩) ok step).runs

theorem runGraphs_runs (hpool : c.pool.Completes allowed) (w : RunSetting) (gs : List Graph)
    (hgs : ∀ g ∈ gs, g.Accepted) (p : Progress) (feed : σ) (cycle : Cycle) :
    Runs c allowed ⟨⟨feed, p.state.caches⟩, cycle⟩ (.between w gs p) []
      (absorb ⟨⟨feed, p.state.caches⟩, cycle⟩ (runGraphs c.pool w gs p).2) .idle := by
  induction gs generalizing p with
  | nil => exact (Advances.executed (s := ⟨⟨feed, p.state.caches⟩, cycle⟩) (Or.inl rfl)).runs
  | cons g rest ih =>
    obtain ⟨hg, hrest⟩ := List.forall_mem_cons.1 hgs
    rw [runGraphs]
    split_ifs with hcancelled
    · exact (Advances.executed (s := ⟨⟨feed, p.state.caches⟩, cycle⟩) (Or.inr hcancelled)).runs
    obtain ⟨hdone, past, hrun⟩ := hpool w g p.state p.lastJob hg
    set r := c.pool.drive w (.start w g p.state p.lastJob)
    have henter : Runs c allowed ⟨⟨feed, p.state.caches⟩, cycle⟩ (.between w (g :: rest) p) []
        ⟨⟨feed, p.state.caches⟩, cycle⟩ (.inside w g rest p.reports (.start w g p.state p.lastJob)) :=
      (Advances.enter (by simpa using hcancelled)).runs
    have hinside := henter.trans (Reached.runs c hrun feed cycle rest p.reports)
    have hconduct : GraphRun.conduct c.pool w g p.state p.lastJob =
        ((r.closed w g).result, (r.closed w g).state, r.lastJob) := rfl
    rw [hconduct]
    cases hresult : (r.closed w g).result with
    | error e => exact hinside.trans (Advances.abort (s := ⟨⟨feed, r.state.caches⟩, cycle⟩) hdone hresult).runs
    | ok report =>
      have hleave : Runs c allowed ⟨⟨feed, r.state.caches⟩, cycle⟩ (.inside w g rest p.reports r) []
          ⟨⟨feed, r.state.caches⟩, cycle⟩
          (.between w rest ⟨(r.closed w g).state, r.lastJob, p.reports ++ [report]⟩) :=
        (Advances.leave hdone hresult).runs
      exact (hinside.trans hleave).trans (ih hrest ⟨(r.closed w g).state, r.lastJob, p.reports ++ [report]⟩)

theorem execute_runs (hpool : c.pool.Completes allowed) (now : Int)
    (hgs : ∀ g ∈ s.cycle.model.schedule, g.Accepted) :
    Runs c allowed s .idle [(.executePlans, now)] (s.execute c).2 .idle := by
  unfold execute
  cases hexpect : s.cycle.expect .executePlans with
  | error e => exact (Advances.refused hexpect).runs
  | ok u =>
    cases hacquired : s.cycle.acquired with
    | error e => exact (Advances.lacking hexpect (Or.inl rfl) hacquired).runs
    | ok held =>
      have hgraphs := runGraphs_runs hpool (s.setting c held.1 held.2) _ hgs s.progress s.world.feed
        s.started.cycle
      have hfirst : Runs c allowed s .idle [(.executePlans, now)] s.started
          (.between (s.setting c held.1 held.2) s.cycle.model.schedule s.progress) :=
        (Advances.execute hexpect hacquired).runs
      exact hfirst.trans hgraphs

theorem collect_runs (c : Context σ) (allowed : Move → Prop) (handle : CacheHandle) (now : Int)
    (specs : List Specification) (found : List Computed) (s : Session σ) :
    Runs c allowed s (.collecting handle now specs found) []
      (match collect s.world.caches handle specs with
        | .ok vs => s.filled now (found ++ vs)
        | .error _ => s) .idle := by
  induction specs generalizing found with
  | nil =>
    simp only [collect, List.append_nil]
    exact Advances.filled.runs
  | cons spec rest ih =>
    cases hread : s.world.caches.read handle spec with
    | error e =>
      simp only [collect, hread]
      exact (Advances.unread hread).runs
    | ok v =>
      have hfirst : Runs c allowed s (.collecting handle now (spec :: rest) found) [] s
          (.collecting handle now rest (found ++ v.toList)) := (Advances.look hread).runs
      have hlook := hfirst.trans (ih (found ++ v.toList))
      simp only [collect, hread]
      cases hcollect : collect s.world.caches handle rest with
      | error e =>
        rw [hcollect] at hlook
        exact hlook
      | ok vs =>
        simp only [hcollect, List.append_assoc] at hlook
        exact hlook

theorem populate_runs (c : Context σ) (allowed : Move → Prop) (now : Int) (s : Session σ) :
    Runs c allowed s .idle [(.populateResults, now)] (s.populate now).2 .idle := by
  unfold populate
  cases hexpect : s.cycle.expect .populateResults with
  | error e => exact (Advances.refused hexpect).runs
  | ok u =>
    cases hacquired : s.cycle.acquired with
    | error e => exact (Advances.lacking hexpect (Or.inr rfl) hacquired).runs
    | ok held =>
      have hfirst : Runs c allowed s .idle [(.populateResults, now)] s
          (.collecting held.2 now (reported s.cycle.model) []) := (Advances.populate hexpect hacquired).runs
      have hcollect := hfirst.trans (collect_runs c allowed held.2 now (reported s.cycle.model) [] s)
      simp only
      cases hvs : collect s.world.caches held.2 (reported s.cycle.model) with
      | error e =>
        rw [hvs] at hcollect
        exact hcollect
      | ok vs =>
        rw [hvs] at hcollect
        exact hcollect

theorem release_runs (c : Context σ) (allowed : Move → Prop) (now : Int) (s : Session σ) :
    Runs c allowed s .idle [(.releaseResources, now)] (s.release c).2 .idle := by
  have hcases := s.release_cases c
  generalize s.release c = after at hcases
  cases hcases with
  | refused stage => exact (Advances.refused (e := .cycleReleased) (by simp [Cycle.expect, stage])).runs
  | nothing stage snapshot => exact (Advances.nothing (Cycle.expect_release stage) snapshot).runs
  | back stage snapshot =>
    exact (Advances.giveBack (Cycle.expect_release stage) snapshot).runs.trans
      (Advances.close (s := s.ended.withFeed _)).runs

/-- The steps of a call that is not disturbed do what the call does. -/
theorem perform_runs (hpool : c.pool.Completes allowed) (hgs : ∀ g ∈ s.cycle.model.schedule, g.Accepted)
    (call : OperationCall) : Runs c allowed s .idle [call] (s.perform c call.request).2 .idle := by
  obtain ⟨op, now⟩ := call
  cases op with
  | prepareInputs => exact prepare_runs c allowed now s
  | executePlans => exact execute_runs hpool now hgs
  | populateResults => exact populate_runs c allowed now s
  | releaseResources => exact release_runs c allowed now s

/-- No step takes another model. -/
theorem Advances.model {call : Option OperationCall} (h : Advances c allowed s a call s' a') :
    s'.cycle.model = s.cycle.model := by
  cases h <;> rfl

theorem Runs.model (h : Runs c allowed s a calls s' a') : s'.cycle.model = s.cycle.model := by
  induction h with
  | start => rfl
  | step _ next ih => exact next.model.trans ih

theorem performAll_runs (hpool : c.pool.Completes allowed) (calls : List OperationCall)
    (hgs : ∀ g ∈ s.cycle.model.schedule, g.Accepted) :
    Runs c allowed s .idle calls (performAll c (calls.map (·.request)) s) .idle := by
  induction calls generalizing s with
  | nil => exact .start
  | cons call rest ih =>
    have hfirst := perform_runs hpool hgs call
    rw [← hfirst.model] at hgs
    exact hfirst.trans (ih hgs)

/-- From a point between two calls nothing happens without a call. -/
theorem Runs.eq_of_nil (h : Runs c allowed s .idle [] s' a') : s' = s ∧ a' = .idle := by
  generalize hcalls : ([] : List OperationCall) = calls at h
  induction h with
  | start => exact ⟨rfl, rfl⟩
  | @step calls s a call s' a' _ next ih =>
    obtain ⟨hbefore, hnone⟩ := List.append_eq_nil_iff.1 hcalls.symm
    obtain ⟨-, rfl⟩ := ih hbefore.symm
    cases next <;> cases hnone

end Session

end CalcCycle
