import CalcCycle.Cycle.Context
import CalcCycle.Cycle.Encoding
import CalcCycle.Cycle.Results
import CalcCycle.Cycle.Stats
import CalcCycle.Graph.Model

/-! A cycle computes a model once over one snapshot of the feed: it takes the snapshot and seeds a
cache with the live data, runs the graphs, collects the results, and gives back what it took. -/

namespace CalcCycle

structure Cycle where
  id : Uuid
  view : String
  model : Model
  stage : Stage := .created
  snapshot : Option Token := none
  cache : Option CacheHandle := none
  tracker : Tracker
  lastJob : Nat := 0
  cancelled : Bool := false
  missing : SortedSet Requirement := .empty
  reports : List GraphReport := []
  results : Results
  stats : CycleStats
  events : List Event := []
  calls : List Call := []

namespace Cycle

def create (id : Uuid) (view : String) (model : Model) (results : Results) : Cycle where
  id := id
  view := view
  model := model
  tracker := .start model.nodeCount
  results := results
  stats := { nodeCount := model.nodeCount }

def cancel (c : Cycle) : Cycle := { c with cancelled := true }

/-- An operation is refused in a stage that does not allow it. -/
def expect (c : Cycle) (op : Operation) : Except Failure Unit :=
  if c.stage = .released then .error .cycleReleased
  else if c.stage ∈ op.allowed then .ok ()
  else .error (.lifecycle op.text c.stage)

/-- What was taken when the inputs were prepared. -/
def acquired (c : Cycle) : Except Failure (Token × CacheHandle) :=
  match c.snapshot, c.cache with
  | some token, some handle => .ok (token, handle)
  | _, _ => .error (.invariant "cycle has no snapshot or cache after preparing inputs")

end Cycle

/-- A cycle with the world it works on. -/
structure Session (σ : Type) where
  world : World σ
  cycle : Cycle

namespace Session

/-! ### Preparing the inputs -/

structure Seeding (σ : Type) where
  world : World σ
  seeded : List Specification := []
  missing : SortedSet Requirement := .empty

/-- Asks the feed for each requirement whose specification has no value yet. What the feed does not
have, or cannot say, is missing. -/
def seed (feed : Feed σ) (token : Token) (cache : CacheHandle) :
    List Requirement → Seeding σ → Except Failure Unit × Seeding σ
  | [], s => (.ok (), s)
  | r :: rest, s =>
    if r.resolve ∈ s.seeded then seed feed token cache rest s
    else
      let (answer, state) := feed.query s.world.feed token r
      let s := { s with world := { s.world with feed := state } }
      match answer with
      | .ok (some p) =>
        match s.world.caches.write cache ⟨r.resolve, p⟩ with
        | .ok caches =>
          seed feed token cache rest
            { s with world := { s.world with caches }, seeded := r.resolve :: s.seeded }
        | .error e => (.error (.cache e), s)
      | _ => seed feed token cache rest { s with missing := s.missing.insert r }

/-- The cycle has its snapshot and its cache. -/
def acquire (s : Session σ) (token : Token) : CacheHandle × Session σ :=
  let (handle, caches) := s.world.caches.acquire s.cycle.view token
  (handle,
    { world := { s.world with caches }
      cycle :=
        { s.cycle with
          snapshot := some token
          cache := some handle
          results := { s.cycle.results with inputsAt := some token, cycleId := some s.cycle.id } } })

def seedAll (c : Context σ) (token : Token) (handle : CacheHandle) (s : Session σ) :
    Except Failure Unit × Session σ :=
  let wanted := s.cycle.model.liveData
  let (outcome, seeding) := seed c.feed token handle wanted.elements { world := s.world }
  let s := { s with world := seeding.world }
  match outcome with
  | .error e => (.error e, s)
  | .ok () =>
    let stats :=
      { s.cycle.stats with
        liveDataRequested := wanted.size
        missingLiveData := seeding.missing.size }
    (.ok (), { s with
      cycle := { s.cycle with stage := .inputsPrepared, missing := seeding.missing, stats } })

def prepare (c : Context σ) (now : Int) (s : Session σ) : Except Failure Unit × Session σ :=
  match s.cycle.expect .prepareInputs with
  | .error e => (.error e, s)
  | .ok () =>
    let (answer, feed) := c.feed.snapshot s.world.feed now
    let s := { s with world := { s.world with feed } }
    match answer with
    | .error e => (.error (.feed e), s)
    | .ok token =>
      let (handle, s) := s.acquire token
      s.seedAll c token handle

/-! ### Running the graphs -/

structure Progress where
  state : RunState
  lastJob : Nat
  reports : List GraphReport

/-- Runs the graphs in turn, until one fails or the cycle is found cancelled. -/
def runGraphs (pool : WorkerPool) (w : RunSetting) :
    List Graph → Progress → Except Failure Unit × Progress
  | [], p => (.ok (), p)
  | g :: rest, p =>
    if p.state.cancelled then (.ok (), p)
    else
      match GraphRun.conduct pool w g p.state p.lastJob with
      | (.ok report, state, lastJob) =>
        runGraphs pool w rest { state, lastJob, reports := p.reports ++ [report] }
      | (.error e, state, lastJob) => (.error e, { p with state, lastJob })

def setting (c : Context σ) (s : Session σ) (token : Token) (cache : CacheHandle) : RunSetting where
  view := s.cycle.view
  token := token
  cache := cache
  listener := c.listener
  containCrashes := c.config.containCrashes

def progress (s : Session σ) : Progress where
  state :=
    { caches := s.world.caches
      tracker := s.cycle.tracker
      cancelled := s.cycle.cancelled
      events := s.cycle.events
      calls := s.cycle.calls }
  lastJob := s.cycle.lastJob
  reports := s.cycle.reports

def countStates (t : Tracker) (reports : List GraphReport) (stats : CycleStats) : CycleStats :=
  let counts := t.counts
  { stats with
    executed := counts.executed
    failed := counts.failed
    notStarted := counts.notStarted
    graphsExecuted := reports.length }

def absorb (s : Session σ) (p : Progress) : Session σ where
  world := { s.world with caches := p.state.caches }
  cycle :=
    { s.cycle with
      tracker := p.state.tracker
      cancelled := p.state.cancelled
      events := p.state.events
      calls := p.state.calls
      lastJob := p.lastJob
      reports := p.reports
      stats := countStates p.state.tracker p.reports s.cycle.stats }

def execute (c : Context σ) (s : Session σ) : Except Failure Unit × Session σ :=
  match s.cycle.expect .executePlans with
  | .error e => (.error e, s)
  | .ok () =>
    match s.cycle.acquired with
    | .error e => (.error e, s)
    | .ok (token, cache) =>
      let s := { s with cycle := { s.cycle with stage := .executing } }
      let (outcome, p) :=
        runGraphs c.pool (s.setting c token cache) s.cycle.model.schedule s.progress
      (outcome, s.absorb p)

/-! ### Collecting the results -/

/-- The specifications that are reported: all outputs for positions and aggregates of positions. -/
def reported (m : Model) : List Specification :=
  TargetKind.reportable.flatMap fun k => (m.partition k).flatMap (·.outputs)

/-- The values in the cache; there may be fewer than specifications. -/
def collect (caches : CacheStore) (cache : CacheHandle) :
    List Specification → Except CacheError (List Computed)
  | [] => .ok []
  | spec :: rest => do
    let v ← caches.read cache spec
    let vs ← collect caches cache rest
    pure (v.toList ++ vs)

def populate (now : Int) (s : Session σ) : Except Failure Unit × Session σ :=
  match s.cycle.expect .populateResults with
  | .error e => (.error e, s)
  | .ok () =>
    match s.cycle.acquired with
    | .error e => (.error e, s)
    | .ok (_, cache) =>
      match collect s.world.caches cache (reported s.cycle.model) with
      | .error e => (.error (.cache e), s)
      | .ok vs =>
        let results := { s.cycle.results.addAll vs with computedAt := some (.ofMillis now) }
        let stats := { s.cycle.stats with resultValues := results.size }
        (.ok (), { s with
          cycle := { s.cycle with results, stats, stage := .resultsPopulated } })

/-! ### Giving back -/

/-- Gives back the snapshot and closes the cache, which happens also if the feed refuses. -/
def giveBack (c : Context σ) (token : Token) (s : Session σ) : Except Failure Unit × Session σ :=
  let (answer, feed) := c.feed.release s.world.feed token
  let (_, caches) := s.world.caches.release s.cycle.view token
  (answer.mapError .feed, { s with world := { feed, caches } })

def release (c : Context σ) (s : Session σ) : Except Failure Unit × Session σ :=
  match s.cycle.expect .releaseResources with
  | .error e => (.error e, s)
  | .ok () =>
    let s := { s with cycle := { s.cycle with stage := .released } }
    match s.cycle.snapshot with
    | none => (.ok (), s)
    | some token => s.giveBack c token

/-- What is still held is given back when a cycle is dropped. -/
def abandon (c : Context σ) (s : Session σ) : World σ :=
  if s.cycle.stage ≠ .released ∧ s.cycle.snapshot.isSome then (s.release c).2.world else s.world

/-! ### All in one -/

/-- The next operation follows only where the last one succeeded. -/
def andThen (r : Except Failure Unit × Session σ)
    (next : Session σ → Except Failure Unit × Session σ) : Except Failure Unit × Session σ :=
  match r with
  | (.ok (), s) => next s
  | (.error e, s) => (.error e, s)

/-- All operations in order. Resources are released whatever happens, and the first failure is
reported. -/
def run (c : Context σ) (now : Int) (s : Session σ) : Except Failure Unit × Session σ :=
  let (outcome, s) := andThen (andThen (s.prepare c now) (execute c)) (populate now)
  let (released, s) := s.release c
  (outcome.bind fun _ => released, s)

end Session

/-- The cycle goes by the name it is given. -/
def Cycle.text (c : Cycle) (name : String) : String :=
  let snapshot := match c.snapshot with
    | some t => "Some(SnapshotToken(" ++ toString t.value ++ "))"
    | none => "None"
  "SingleComputationCycle \x7b cycle_id: " ++ name ++ ", view_name: " ++ Quoted.quote c.view ++
    ", state: " ++ c.stage.tag ++ ", snapshot: " ++ snapshot ++
    ", nodes: " ++ toString c.model.nodeCount ++ " \x7d"

end CalcCycle
