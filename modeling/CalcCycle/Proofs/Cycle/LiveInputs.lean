import CalcCycle.Proofs.Cycle.Completion
import CalcCycle.Proofs.Execution.Provenance
import CalcCycle.Proofs.Feed.Lookup

/-! What a calculation is given for live data: what the snapshot has for the declared requirement, under
the specification to which that requirement resolves. Its own requirement need not accept where the value
is stored, unless it accepts everything that the declared one accepts. -/

namespace CalcCycle.Session

/-! ### The calls of a cycle -/

section Graphs
variable {pool : WorkerPool} {allowed : Move → Prop} {w : RunSetting} {kept : Specification → Prop}
  {V : Values}

theorem conduct_traced (hpool : pool.Completes allowed) {g : Graph} {s : RunState} (k : Nat) (hg : g.Accepted)
    (hout : ∀ n ∈ g.nodes, ∀ spec ∈ n.outputs, ¬ kept spec) (hcaches : s.caches.Agrees w.cache kept V) :
    (GraphRun.conduct pool w g s k).2.1.caches.Agrees w.cache kept V ∧
      ∀ call ∈ (GraphRun.conduct pool w g s k).2.1.calls, call ∈ s.calls ∨ call.Traced kept V g.nodes := by
  obtain ⟨-, past, hrun⟩ := hpool w g s k hg
  have ht := hrun.traced hg.wellFormed hout hcaches
  exact ⟨ht.caches, ht.calls⟩

theorem runGraphs_traced (hpool : pool.Completes allowed) {gs : List Graph} (hgs : ∀ g ∈ gs, g.Accepted)
    (hout : ∀ g ∈ gs, ∀ n ∈ g.nodes, ∀ spec ∈ n.outputs, ¬ kept spec) {p : Progress}
    (hcaches : p.state.caches.Agrees w.cache kept V) :
    ∀ call ∈ (runGraphs pool w gs p).2.state.calls,
      call ∈ p.state.calls ∨ ∃ g ∈ gs, call.Traced kept V g.nodes := by
  induction gs generalizing p with
  | nil =>
    intro call hcall
    exact Or.inl hcall
  | cons g rest ih =>
    obtain ⟨hg, hrest⟩ := List.forall_mem_cons.1 hgs
    obtain ⟨hout, houts⟩ := List.forall_mem_cons.1 hout
    obtain ⟨hcaches', hcalls⟩ := conduct_traced hpool p.lastJob hg hout hcaches
    intro call hcall
    rw [runGraphs] at hcall
    split_ifs at hcall with hcancelled
    · exact Or.inl hcall
    have hfirst : call ∈ (GraphRun.conduct pool w g p.state p.lastJob).2.1.calls →
        call ∈ p.state.calls ∨ ∃ g' ∈ g :: rest, call.Traced kept V g'.nodes := fun h =>
      (hcalls call h).imp_right fun ht => ⟨g, List.mem_cons_self, ht⟩
    split at hcall
    · next report state lastJob hconduct =>
      rw [hconduct] at hcaches' hfirst
      rcases ih hrest houts hcaches' call hcall with hcall | ⟨g', hg', ht⟩
      · exact hfirst hcall
      · exact Or.inr ⟨g', List.mem_cons_of_mem _ hg', ht⟩
    · next e state lastJob hconduct =>
      rw [hconduct] at hfirst
      exact hfirst hcall

end Graphs

section Operations
variable {σ : Type} {c : Context σ} {s : Session σ}

theorem execute_traced (kept : Specification → Prop) (V : Values) {allowed : Move → Prop}
    (hpool : c.pool.Completes allowed) (hgs : ∀ g ∈ s.cycle.model.graphs, g.Accepted)
    (hout : ∀ g ∈ s.cycle.model.graphs, ∀ n ∈ g.nodes, ∀ spec ∈ n.outputs, ¬ kept spec)
    (hcaches : ∀ handle, s.cycle.cache = some handle → s.world.caches.Agrees handle kept V) :
    ∀ call ∈ (s.execute c).2.cycle.calls,
      call ∈ s.cycle.calls ∨ ∃ g ∈ s.cycle.model.graphs, call.Traced kept V g.nodes := by
  have hmem : ∀ g ∈ s.cycle.model.schedule, g ∈ s.cycle.model.graphs := fun g hg => Model.mem_schedule.1 hg
  intro call hcall
  unfold execute at hcall
  split at hcall
  · exact Or.inl hcall
  · split at hcall
    · exact Or.inl hcall
    · next token handle hacquired =>
      have hcache : s.cycle.cache = some handle := by
        unfold Cycle.acquired at hacquired
        split at hacquired
        · next hc =>
          cases hacquired
          exact hc
        · cases hacquired
      have htraced := runGraphs_traced (w := s.setting c token handle) (p := s.progress) hpool
        (fun g hg => hgs g (hmem g hg)) (fun g hg => hout g (hmem g hg)) (hcaches handle hcache) call hcall
      exact htraced.imp_right fun ⟨g, hg, ht⟩ => ⟨g, hmem g hg, ht⟩

theorem populate_calls (now : Int) (s : Session σ) : (s.populate now).2.cycle.calls = s.cycle.calls := by
  unfold populate
  split
  · rfl
  · split
    · rfl
    · split <;> rfl

theorem release_calls (s : Session σ) : (s.release c).2.cycle.calls = s.cycle.calls := by
  unfold release
  split
  · rfl
  · simp only
    split <;> rfl

/-- All calls of a cycle come from the execution of its plans. -/
theorem run_calls {s₁ : Session σ} {now : Int} (hprepare : s.prepare c now = (.ok (), s₁)) :
    (run c now s).2.cycle.calls = (s₁.execute c).2.cycle.calls := by
  unfold run
  simp only [hprepare, andThen]
  rw [release_calls]
  cases hexecute : s₁.execute c with
  | mk outcome s₂ =>
    cases outcome with
    | error e => rfl
    | ok u => exact populate_calls now s₂

end Operations

/-! ### Live data -/

theorem answered_memory {f : MemoryFeed} {now : Int} {wanted : List Requirement} {spec : Specification}
    {p : Payload}
    (h : Answered MemoryFeed.source (f.takeSnapshot now).1 (f.takeSnapshot now).2 wanted spec p) :
    ∃ d ∈ wanted, d.resolve = spec ∧ f.current.lookup d = some p := by
  obtain ⟨d, hd, hspec, b, hasked, hquery⟩ := h
  rw [asked_memory hasked] at hquery
  have hsnapshot : (f.takeSnapshot now).2.snapshots.get? (f.takeSnapshot now).1 = some f.current := by
    simp [MemoryFeed.takeSnapshot, SortedMap.get?_insert]
  refine ⟨d, hd, hspec, ?_⟩
  simpa [MemoryFeed.source, MemoryFeed.query, hsnapshot] using hquery

/-- The specification is one of live data of the model. -/
def IsLive (m : Model) (spec : Specification) : Prop := ∃ d ∈ m.liveData, d.resolve = spec

/-- No node produces what is seeded, so it stays as it is, and the calculations are called on it. -/
theorem Prepared.traced {σ : Type} {c : Context σ} {s s' : Session σ} {b : Blueprint} {m : Model}
    (hbuild : b.build = .ok m) {allowed : Move → Prop} (hpool : c.pool.Completes allowed) {f : Feed σ}
    {token : Token} {start : σ} {handle : CacheHandle} {V : Values}
    (h : Prepared f token start s s' handle V) (hmodel : s.cycle.model = m) :
    ∀ call ∈ (s'.execute c).2.cycle.calls,
      call ∈ s.cycle.calls ∨ ∃ g ∈ m.graphs, call.Traced (IsLive m) V g.nodes := by
  have hm : s'.cycle.model = m := h.model.trans hmodel
  have hgs : ∀ g ∈ s'.cycle.model.graphs, g.Accepted := by
    intro g hg
    rw [hm] at hg
    exact Blueprint.accepted_of_build hbuild hg
  have hout : ∀ g ∈ s'.cycle.model.graphs, ∀ n ∈ g.nodes, ∀ spec ∈ n.outputs, ¬ IsLive m spec := by
    rintro g hg n hn spec hspec ⟨d, hd, rfl⟩
    rw [hm] at hg
    exact Blueprint.live_not_produced hbuild hd hg hn hspec
  have hcaches : ∀ handle', s'.cycle.cache = some handle' →
      s'.world.caches.Agrees handle' (IsLive m) V := by
    intro handle' hhandle V' ho spec _
    rw [h.cache] at hhandle
    cases hhandle
    rw [h.opened] at ho
    cases ho
    rfl
  rw [← h.calls, ← hm] at *
  exact execute_traced _ V hpool hgs hout hcaches

/-- Whenever a calculation is called in a new cycle over a built model, it is given for a requirement
that was resolved to live data what the snapshot has for the declared requirement. That is stored under
a specification that its own requirement accepts, in whatever snapshot, exactly where its own requirement
accepts all that the declared one accepts. -/
theorem live_inputs_looked_up {b : Blueprint} {m : Model} (hbuild : b.build = .ok m) {config : Config}
    {listener : Listener} {pool : WorkerPool} {allowed : Move → Prop} (hpool : pool.Completes allowed)
    {id : Uuid} {view : String} {results : Results} {cancelled : Bool} {world : World MemoryFeed} {now : Int}
    (hcache : world.caches.find? view (world.feed.takeSnapshot now).1 = none) {call : Call}
    (hcall : call ∈ (run { config, feed := MemoryFeed.source, listener, pool } now
      ⟨world, { Cycle.create id view m results with cancelled }⟩).2.cycle.calls) :
    ∃ r, b.registrations[call.node.index]? = some r ∧
      ∀ q ∈ r.requirements, ∀ d, b.resolve q = .live d →
        (∃ p, world.feed.current.lookup d = some p ∧ call.inputs.get? d.resolve = some p) ∧
        ((∀ (values : LiveValues) (p : Payload), values.lookup d = some p →
            ∃ spec, values.get? spec = some p ∧ q.satisfiedBy spec = true) ↔
          ∀ spec, d.satisfiedBy spec = true → q.satisfiedBy spec = true) := by
  set s : Session MemoryFeed := ⟨world, { Cycle.create id view m results with cancelled }⟩
  set c : Context MemoryFeed := { config, feed := MemoryFeed.source, listener, pool }
  obtain ⟨s₁, handle, V, hprepare, hp⟩ := prepare_ok (s := s) (c := c) rfl rfl hcache
  rw [run_calls hprepare] at hcall
  rcases hp.traced hbuild hpool rfl call hcall with hold | ⟨g, hg, n, hn, hid, hhas⟩
  · cases hold
  · obtain ⟨r, hr⟩ := Blueprint.exists_stem hbuild hg hn
    refine ⟨r, hid ▸ hr.place, fun q hq d hlive => ⟨?_, ?_⟩⟩
    · obtain ⟨hd, hin⟩ := Blueprint.live_of_stems hbuild hg hn hr hq hlive
      obtain ⟨p, hV, hinputs⟩ := hhas d.resolve hin ⟨d, hd, rfl⟩
      obtain ⟨d', hd', hresolve, hlookup⟩ := answered_memory (hp.answered _ _ hV)
      rw [Blueprint.liveData_injective hbuild hd' hd hresolve] at hlookup
      exact ⟨p, hlookup, hinputs⟩
    · exact LiveValues.lookup_accepted_iff (Blueprint.resolve_live hlive).1

/-! A declaration that is wider than the requirement: it accepts one more curve, and that is the one
found. -/

def curve (name : String) : Specification :=
  { name := "Curve", target := .primitive "USD", properties := .ofList [("Curve", name)] }

def anyCurve (names : List String) : Requirement :=
  { name := "Curve", target := .primitive "USD", constraints := .ofList [("Curve", .ofList names)] }

def pricer : Calculation where
  name := "pricer"
  requirements _ := [anyCurve ["ESTR", "SOFR"]]
  results t := [{ name := "Price", target := t }]
  call _ t _ := ⟨.values [⟨{ name := "Price", target := t }, .text "100"⟩], []⟩

def wideBlueprint : Blueprint where
  registrations := [⟨.primitive "USD", pricer⟩]
  liveData := [anyCurve ["ESTR", "OIS", "SOFR"]]

def curveFeed : MemoryFeed :=
  (MemoryFeed.empty.setValue (curve "OIS") (.text "1")).setValue (curve "SOFR") (.text "2")

/-- The calls of a cycle over the wide declaration. -/
def wideCalls (m : Model) : List Call :=
  (run { config := {}, feed := MemoryFeed.source } 7
    ⟨{ feed := curveFeed }, Cycle.create ⟨1⟩ "view" m (.empty "view")⟩).2.cycle.calls

theorem pricer_looked_up :
    ∃ m, wideBlueprint.build = .ok m ∧ ∃ call ∈ wideCalls m, ∃ p,
      curveFeed.current.lookup (anyCurve ["ESTR", "OIS", "SOFR"]) = some p ∧
        call.inputs.get? (curve "ESTR") = some p := by
  obtain ⟨m, hm⟩ : ∃ m, wideBlueprint.build = .ok m := ⟨_, rfl⟩
  obtain ⟨call, hcall⟩ : ∃ call, call ∈ wideCalls m := by
    cases hm
    exact ⟨_, List.mem_cons_self⟩
  obtain ⟨r, hplace, hlive⟩ := live_inputs_looked_up hm WorkerPool.single_completes rfl hcall
  have hr : r ∈ [(⟨.primitive "USD", pricer⟩ : Registration)] := List.mem_of_getElem? hplace
  rw [List.mem_singleton.1 hr] at hlive
  obtain ⟨hlookup, -⟩ := hlive (anyCurve ["ESTR", "SOFR"]) List.mem_cons_self
    (anyCurve ["ESTR", "OIS", "SOFR"]) rfl
  exact ⟨m, hm, call, hcall, hlookup⟩

/-- The calculation is called on a value that is stored nowhere where its requirement accepts it. -/
theorem pricer_given_unaccepted :
    ∃ m, wideBlueprint.build = .ok m ∧ ∃ call ∈ wideCalls m,
      wideBlueprint.resolve (anyCurve ["ESTR", "SOFR"]) = .live (anyCurve ["ESTR", "OIS", "SOFR"]) ∧
      ∃ p, call.inputs.get? (curve "ESTR") = some p ∧
        ∀ spec, curveFeed.current.get? spec = some p → (anyCurve ["ESTR", "SOFR"]).satisfiedBy spec = false := by
  refine ⟨_, rfl, _, List.mem_cons_self, rfl, .text "1", rfl, ?_⟩
  intro spec hspec
  have hget : curveFeed.current.get? spec =
      if spec = curve "SOFR" then some (.text "2") else if spec = curve "OIS" then some (.text "1") else none := by
    simp [curveFeed, MemoryFeed.setValue, MemoryFeed.empty, SortedMap.get?_insert]
  rw [hget] at hspec
  split_ifs at hspec with hsofr hois
  · simp at hspec
  · rw [hois]
    rfl

end CalcCycle.Session
