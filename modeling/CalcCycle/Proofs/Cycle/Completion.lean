import CalcCycle.Feed.Memory
import CalcCycle.Proofs.Cycle.Course
import CalcCycle.Proofs.Cycle.Preparation
import CalcCycle.Proofs.Graph.Blueprint

/-! A cycle over a built model runs to its end. No state of it, whatever the calculations answer and
whenever somebody cancels, leads to a fatal failure: a value is never written twice, a node is never
moved out of turn, and no graph stalls. -/

namespace CalcCycle

/-- A node that the tracker has and nobody has begun, with outputs that have no values. -/
theorem Node.untouched_start {n : Node} {count : Nat} {V : Values} (hid : n.id.index < count)
    (hout : ∀ spec ∈ n.outputs, V.get? spec = none) : n.Untouched (.start count) V :=
  ⟨Tracker.state?_start hid, rfl, hout⟩

namespace Session

/-! ### The graphs -/

section Graphs
variable {pool : WorkerPool} {allowed : Move → Prop} {w : RunSetting}

/-- What comes of a graph that is run to its end. -/
theorem conduct_sound (hpool : pool.Completes allowed) {g : Graph} {s : RunState} {V₀ : Values} (k : Nat)
    (hg : g.Accepted) (htame : GraphRun.Tame w g) (hopen : s.caches.open? w.cache = some V₀)
    (hnew : ∀ n ∈ g.nodes, n.Untouched s.tracker V₀) :
    ∃ past r V, GraphRun.Reached allowed w (.start w g s k) past r ∧ r.isDone = true ∧
      GraphRun.Sound w g s.tracker V₀ V past r ∧
      GraphRun.conduct pool w g s k = (.ok r.summary, (r.closed w g).state, r.lastJob) := by
  obtain ⟨hdone, past, hrun⟩ := hpool w g s k hg
  obtain ⟨V, hsound⟩ := hrun.sound htame hg.wellFormed hopen hnew
  have hresult := hsound.result hg.wellFormed (hrun.orderly hg.wellFormed) hdone
  refine ⟨past, _, V, hrun, hdone, hsound, ?_⟩
  rw [← hresult]
  rfl

/-- The run of a graph leaves the nodes of separate graphs as they are. -/
theorem untouched_later {g : Graph} {rest : List Graph} {t₀ : Tracker} {V₀ V : Values} {past : History}
    {r : GraphRun} (h : GraphRun.Sound w g t₀ V₀ V past r) (hapart : ∀ a ∈ rest, g.Separate a)
    (hnew : ∀ a ∈ rest, ∀ n ∈ a.nodes, n.Untouched t₀ V₀) :
    ∀ a ∈ rest, ∀ n ∈ a.nodes, n.Untouched r.state.tracker V := by
  intro a ha n hn
  refine (hnew a ha n hn).frame (h.elsewhere ?_ ?_)
  · exact fun b hb => (hapart a ha b hb n hn).1
  · exact fun b hb => (hapart a ha b hb n hn).2

theorem runGraphs_ok (hpool : pool.Completes allowed) {gs : List Graph} (hgs : ∀ g ∈ gs, g.Accepted)
    (htame : ∀ g ∈ gs, GraphRun.Tame w g) (hseparate : gs.Pairwise Graph.Separate) {p : Progress}
    {V : Values} (hopen : p.state.caches.open? w.cache = some V)
    (hnew : ∀ g ∈ gs, ∀ n ∈ g.nodes, n.Untouched p.state.tracker V) :
    ∃ p' V', runGraphs pool w gs p = (.ok (), p') ∧ p'.state.caches.open? w.cache = some V' := by
  induction gs generalizing p V with
  | nil => exact ⟨p, V, rfl, hopen⟩
  | cons g rest ih =>
    rw [runGraphs]
    split_ifs with hcancelled
    · exact ⟨p, V, rfl, hopen⟩
    obtain ⟨hg, hrest⟩ := List.forall_mem_cons.1 hgs
    obtain ⟨hapart, hseparate⟩ := List.pairwise_cons.1 hseparate
    obtain ⟨past, r, V', -, -, hsound, hconduct⟩ := conduct_sound hpool p.lastJob hg
      (htame g List.mem_cons_self) hopen (hnew g List.mem_cons_self)
    have hlater := untouched_later hsound hapart fun a ha => hnew a (List.mem_cons_of_mem _ ha)
    rw [hconduct]
    exact ih hrest (fun a ha => htame a (List.mem_cons_of_mem _ ha)) hseparate hsound.opened hlater

end Graphs

/-! ### The operations -/

variable {σ : Type} {c : Context σ} {s : Session σ} {token : Token} {handle : CacheHandle} {V : Values}

/-- What stays the same when a cycle goes on after its inputs have been prepared. -/
structure Keeps (s s' : Session σ) (handle : CacheHandle) : Prop where
  view : s'.cycle.view = s.cycle.view
  model : s'.cycle.model = s.cycle.model
  snapshot : s'.cycle.snapshot = s.cycle.snapshot
  cache : s'.cycle.cache = s.cycle.cache
  feed : s'.world.feed = s.world.feed
  opened : ∃ V, s'.world.caches.open? handle = some V

def started (s : Session σ) : Session σ := { s with cycle := { s.cycle with stage := .executing } }

/-- Where the inputs have been prepared, the execution is a run of the graphs. -/
theorem execute_eq (hstage : s.cycle.stage = .inputsPrepared) (hsnapshot : s.cycle.snapshot = some token)
    (hcache : s.cycle.cache = some handle) :
    s.execute c =
      ((runGraphs c.pool (s.setting c token handle) s.cycle.model.schedule s.progress).1,
        s.started.absorb (runGraphs c.pool (s.setting c token handle) s.cycle.model.schedule s.progress).2) := by
  have hexpect : s.cycle.expect .executePlans = .ok () := by
    simp [Cycle.expect, hstage, Operation.allowed]
  have hacquired : s.cycle.acquired = .ok (token, handle) := by
    simp [Cycle.acquired, hsnapshot, hcache]
  unfold execute
  simp only [hexpect, hacquired]
  rfl

theorem execute_ok {allowed : Move → Prop} (hpool : c.pool.Completes allowed)
    (hstage : s.cycle.stage = .inputsPrepared) (hsnapshot : s.cycle.snapshot = some token)
    (hcache : s.cycle.cache = some handle) (hopen : s.world.caches.open? handle = some V)
    (hmodel : s.cycle.model.WellFormed) (hgs : ∀ g ∈ s.cycle.model.graphs, g.Accepted)
    (htame : ∀ g ∈ s.cycle.model.graphs, ∀ n ∈ g.nodes, n.calculation.Tame c.config.containCrashes)
    (hnew : ∀ g ∈ s.cycle.model.graphs, ∀ n ∈ g.nodes, n.Untouched s.cycle.tracker V) :
    ∃ s', s.execute c = (.ok (), s') ∧ s'.cycle.stage = .executing ∧ Keeps s s' handle := by
  have hmem : ∀ g ∈ s.cycle.model.schedule, g ∈ s.cycle.model.graphs := fun g hg => Model.mem_schedule.1 hg
  obtain ⟨p, V', hrun, hopen'⟩ := runGraphs_ok (w := s.setting c token handle) (p := s.progress) hpool
    (fun g hg => hgs g (hmem g hg)) (fun g hg => htame g (hmem g hg)) hmodel.separate_schedule hopen
    (fun g hg => hnew g (hmem g hg))
  refine ⟨s.started.absorb p, ?_, rfl, rfl, rfl, rfl, rfl, rfl, V', hopen'⟩
  rw [execute_eq hstage hsnapshot hcache, hrun]

theorem collect_ok {caches : CacheStore} (hopen : caches.open? handle = some V) (specs : List Specification) :
    ∃ vs, collect caches handle specs = .ok vs := by
  induction specs with
  | nil => exact ⟨[], rfl⟩
  | cons spec rest ih =>
    obtain ⟨vs, hvs⟩ := ih
    exact ⟨_, by rw [collect, CacheStore.read_of_open hopen, hvs]; rfl⟩

theorem populate_ok (now : Int) (hstage : s.cycle.stage = .executing)
    (hsnapshot : s.cycle.snapshot = some token) (hcache : s.cycle.cache = some handle)
    (hopen : s.world.caches.open? handle = some V) :
    ∃ s', s.populate now = (.ok (), s') ∧ s'.cycle.stage = .resultsPopulated ∧ Keeps s s' handle := by
  have hexpect : s.cycle.expect .populateResults = .ok () := by
    simp [Cycle.expect, hstage, Operation.allowed]
  have hacquired : s.cycle.acquired = .ok (token, handle) := by
    simp [Cycle.acquired, hsnapshot, hcache]
  obtain ⟨vs, hvs⟩ := collect_ok hopen (reported s.cycle.model)
  unfold populate
  simp only [hexpect, hacquired, hvs]
  exact ⟨_, rfl, rfl, rfl, rfl, rfl, rfl, rfl, V, hopen⟩

theorem release_ok (hstage : s.cycle.stage = .resultsPopulated) (hsnapshot : s.cycle.snapshot = some token)
    (hrelease : (c.feed.release s.world.feed token).1 = .ok ()) : (s.release c).1 = .ok () := by
  have hexpect : s.cycle.expect .releaseResources = .ok () := by
    simp [Cycle.expect, hstage, Operation.allowed]
  unfold release
  simp only [hexpect, hsnapshot, giveBack, hrelease]
  rfl

/-! ### All in one -/

/-- What is seeded is no output of a node, so no node of a built model is touched by the preparation. -/
theorem Prepared.untouched {b : Blueprint} {m : Model} (hbuild : b.build = .ok m) {f : Feed σ} {start : σ}
    {s' : Session σ} (h : Prepared f token start s s' handle V) (hmodel : s.cycle.model = m)
    (htracker : s.cycle.tracker = .start m.nodeCount) :
    ∀ g ∈ m.graphs, ∀ n ∈ g.nodes, n.Untouched s'.cycle.tracker V := by
  intro g hg n hn
  rw [h.tracker, htracker]
  apply Node.untouched_start ((Blueprint.build_ok hbuild).2.bound g hg n hn)
  intro spec hspec
  by_contra hsome
  obtain ⟨p, hp⟩ := Option.ne_none_iff_exists'.1 hsome
  obtain ⟨d, hd, rfl, -⟩ := h.answered spec p hp
  rw [hmodel] at hd
  exact Blueprint.live_not_produced hbuild hd hg hn hspec

/-- A new cycle over a built model runs to its end: the feed may answer the queries as it likes, the
calculations may answer as they like, the jobs may take any turns, and somebody may have cancelled the
cycle before or may cancel it at any time. -/
theorem run_never_fails {b : Blueprint} {m : Model} (hbuild : b.build = .ok m) {id : Uuid} {view : String}
    {results : Results} {cancelled : Bool} {world : World σ} {now : Int} {start : σ}
    (hpool : c.pool.Completes fun _ => True)
    (htame : ∀ r ∈ b.registrations, r.calculation.Tame c.config.containCrashes)
    (hsnapshot : c.feed.snapshot world.feed now = (.ok token, start))
    (hrelease : ∀ f, c.feed.Asked token start f → (c.feed.release f token).1 = .ok ())
    (hcache : world.caches.find? view token = none) :
    (run c now ⟨world, { Cycle.create id view m results with cancelled }⟩).1 = .ok () := by
  set s : Session σ := ⟨world, { Cycle.create id view m results with cancelled }⟩
  obtain ⟨s₁, handle, V, hprepare, hp⟩ := prepare_ok (s := s) (c := c) rfl hsnapshot hcache
  have hm : s₁.cycle.model = m := hp.model
  have huntouched := hp.untouched hbuild rfl rfl
  have htame' : ∀ g ∈ m.graphs, ∀ n ∈ g.nodes, n.calculation.Tame c.config.containCrashes := by
    intro g hg n hn
    obtain ⟨r, hr⟩ := Blueprint.exists_stem hbuild hg hn
    rw [hr.calculation]
    exact htame r hr.mem
  obtain ⟨s₂, hexecute, hstage₂, hkeeps₂⟩ := execute_ok hpool hp.stage hp.snapshot hp.cache hp.opened
    (by rw [hm]; exact (Blueprint.build_ok hbuild).2)
    (by rw [hm]; exact fun g hg => Blueprint.accepted_of_build hbuild hg)
    (by rw [hm]; exact htame') (by rw [hm]; exact huntouched)
  obtain ⟨V₂, hopen₂⟩ := hkeeps₂.opened
  have hsnapshot₂ := hkeeps₂.snapshot.trans hp.snapshot
  obtain ⟨s₃, hpopulate, hstage₃, hkeeps₃⟩ := populate_ok now hstage₂ hsnapshot₂
    (hkeeps₂.cache.trans hp.cache) hopen₂
  have hreleased : (s₃.release c).1 = .ok () := by
    apply release_ok hstage₃ (hkeeps₃.snapshot.trans hsnapshot₂)
    rw [hkeeps₃.feed, hkeeps₂.feed]
    exact hrelease _ hp.asked
  unfold run
  simp only [hprepare, andThen, hexecute, hpopulate]
  exact hreleased

/-! A cycle over live data, with a calculation that crashes and one that answers what it has not
declared. -/

/-- Reads one value and declares one, and answers as it is told. -/
def relay (input output : String) (reply : Outcome) : Calculation where
  name := "relay"
  requirements t := [{ name := input, target := t }]
  results _ := [sampleValue output]
  call _ _ _ := ⟨reply, [.cancelCycle]⟩

theorem relay_tame (input output : String) (reply : Outcome) : (relay input output reply).Tame true :=
  ⟨fun _ _ _ => by simp [relay], Or.inl rfl⟩

def sampleBlueprint : Blueprint where
  registrations :=
    [⟨.primitive "EUR", relay "Rate" "Curve" (.values [⟨sampleValue "Curve", .text "1"⟩])⟩,
      ⟨.primitive "EUR", relay "Curve" "Price" (.crash none)⟩,
      ⟨.primitive "EUR", relay "Curve" "Risk" (.values [⟨sampleValue "Curve", .text "2"⟩])⟩]
  liveData := [{ name := "Rate", target := .primitive "EUR" }]

def sampleFeed : MemoryFeed := MemoryFeed.empty.setValue (sampleValue "Rate") (.text "0")

/-- A query leaves the feed as it is. -/
theorem asked_memory {token : Token} {a f : MemoryFeed} (h : MemoryFeed.source.Asked token a f) : f = a := by
  induction h with
  | none => rfl
  | query r before ih => exact ih

theorem sample_never_fails :
    ∃ m, sampleBlueprint.build = .ok m ∧
      (run { config := {}, feed := MemoryFeed.source } 7
        ⟨{ feed := sampleFeed }, Cycle.create ⟨1⟩ "view" m (.empty "view")⟩).1 = .ok () := by
  obtain ⟨m, hm⟩ : ∃ m, sampleBlueprint.build = .ok m := ⟨_, rfl⟩
  refine ⟨m, hm, run_never_fails (c := { config := {}, feed := MemoryFeed.source }) hm ?_ ?_ rfl ?_ rfl⟩
  · exact fun w g s k hg => (WorkerPool.single_completes w g s k hg).imp_right fun ⟨past, hrun⟩ =>
      ⟨past, hrun.mono fun _ _ => trivial⟩
  · intro r hr
    simp only [sampleBlueprint, List.mem_cons, List.not_mem_nil, or_false] at hr
    rcases hr with rfl | rfl | rfl
    all_goals exact relay_tame _ _ _
  · intro f hf
    rw [asked_memory hf]
    rfl

end Session

end CalcCycle
