import CalcCycle.Proofs.Cycle.Halting
import CalcCycle.Proofs.Cycle.LiveInputs
import CalcCycle.Proofs.Execution.Starving
import CalcCycle.Proofs.Feed.Queries
import CalcCycle.Proofs.Graph.LiveData

/-! Requirements that dangle: nothing that is declared satisfies them. The node then reads the resolution of
the requirement, so it starves as long as nothing provides that. Something may provide it nevertheless, for the
resolution need not satisfy the requirement: it leaves out the properties that are constrained to an empty set. -/

namespace CalcCycle

namespace Blueprint
variable {b : Blueprint} {m : Model} {q : Requirement}

/-- Nothing that is declared satisfies the requirement, neither an output nor live data. -/
structure Dangles (b : Blueprint) (q : Requirement) : Prop where
  unproduced : ∀ r ∈ b.registrations, ∀ spec ∈ r.results, q.satisfiedBy spec = false
  undeclared : ∀ d ∈ b.liveData, q.satisfiedBy d.resolve = false

theorem resolve_eq_dangling (h : b.Dangles q) : b.resolve q = .dangling q := by
  have hlive : b.liveData.find? (fun d => q.satisfiedBy d.resolve) = none :=
    List.find?_eq_none.2 fun d hd => by simp [h.undeclared d hd]
  unfold resolve
  rw [find?_outputs_eq_none.2 h.unproduced, hlive]

/-- The node reads the resolution of a requirement that dangles. -/
theorem mem_inputs_of_dangles (h : b.Dangles q) {i : Nat} {r : Registration} (hq : q ∈ r.requirements) :
    q.resolve ∈ (b.nodeAt i r).inputs := by
  change q.resolve ∈ b.inputsOf r
  refine List.mem_map.2 ⟨q, hq, ?_⟩
  rw [resolve_eq_dangling h]
  rfl

theorem mem_liveData_declared (hbuild : b.build = .ok m) {d : Requirement} (hd : d ∈ m.liveData) :
    d ∈ b.liveData := by
  obtain ⟨_, _, _, _, hlive⟩ := exists_of_mem_liveData hbuild hd
  exact (resolve_live hlive).2.1

/-- Nothing provides the value: it is no declared output and not seeded. -/
structure Unprovided (b : Blueprint) (m : Model) (spec : Specification) : Prop where
  unproduced : spec ∉ b.outputs
  unseeded : ∀ d ∈ m.liveData, d.resolve ≠ spec

/-- Nothing provides the resolution of a requirement that dangles and names acceptable values for all it constrains. -/
theorem Dangles.unprovided (hbuild : b.build = .ok m) (h : b.Dangles q)
    (hnamed : ∀ e ∈ q.constraints.entries, e.2.isEmpty = false) : b.Unprovided m q.resolve := by
  have hsat := Requirement.satisfiedBy_resolve_iff.2 hnamed
  constructor
  · intro hmem
    obtain ⟨r, hr, hspec⟩ := List.mem_flatMap.1 hmem
    rw [h.unproduced r hr _ hspec] at hsat
    cases hsat
  · intro d hd he
    rw [← he, h.undeclared d (mem_liveData_declared hbuild hd)] at hsat
    cases hsat

theorem Unprovided.not_mem_outputs (hbuild : b.build = .ok m) {spec : Specification} (h : b.Unprovided m spec)
    {g : Graph} (hg : g ∈ m.graphs) {n : Node} (hn : n ∈ g.nodes) : spec ∉ n.outputs := by
  obtain ⟨r, hr⟩ := exists_stem hbuild hg hn
  exact fun hmem => h.unproduced (mem_outputs_of_stems hr hmem)

end Blueprint

/-- The cache that is open for the view and the snapshot, or would be opened, has no value for the
specification. -/
def CacheStore.Free (s : CacheStore) (view : String) (token : Token) (spec : Specification) : Prop :=
  (s.acquire view token).2.Lacks (s.acquire view token).1 spec

theorem CacheStore.free_of_new {s : CacheStore} {view : String} {token : Token} (h : s.find? view token = none)
    (spec : Specification) : s.Free view token spec := by
  intro V hopen
  rw [open?_acquire h] at hopen
  cases hopen
  rfl

/-- The node has failed for want of the value, and its calculation has not been called. -/
structure Cycle.Starves (c : Cycle) (spec : Specification) (id : NodeId) : Prop where
  starved : c.tracker.Starved spec id
  uncalled : ∀ call ∈ c.calls, call.node ≠ id

namespace Session

/-! ### The graphs -/

section Passes
variable {w : RunSetting} {gs : List Graph} {p p' : Progress} {runs : List Passage}
  {outcome : Except Failure Unit} {spec : Specification}

theorem Passes.going (h : Passes w gs p runs outcome p') (hgoing : p'.state.cancelled = false) :
    p.state.cancelled = false := by
  cases h with
  | ended => exact hgoing
  | cut cancelled =>
    rw [cancelled] at hgoing
    cases hgoing
  | failed going | graph going => exact going

theorem Passes.dispatched_mem (hgs : ∀ g ∈ gs, g.Accepted) (h : Passes w gs p runs outcome p') {j : Job}
    (hj : j ∈ Passage.dispatched runs) : ∃ g ∈ gs, j.node ∈ g.nodes := by
  obtain ⟨a, ha, hj⟩ := List.mem_flatMap.1 hj
  obtain ⟨k, ho⟩ := h.orderly hgs a ha
  exact ⟨a.graph, h.graphs.subset (List.mem_map_of_mem ha), (ho.dispatched_mem (List.mem_map_of_mem hj)).1⟩

/-- The graphs that are run leave the nodes of other graphs alone. -/
theorem Passes.dispatched_apart (hgs : ∀ g ∈ gs, g.Accepted) (h : Passes w gs p runs outcome p') {n : Node}
    (hapart : ∀ g ∈ gs, ∀ m ∈ g.nodes, n.id ≠ m.id ∧ n.Apart m) :
    n.id ∉ (Passage.dispatched runs).map (·.node.id) ∧ ∀ j ∈ Passage.dispatched runs, n.Apart j.node := by
  have hothers : ∀ j ∈ Passage.dispatched runs, n.id ≠ j.node.id ∧ n.Apart j.node := by
    intro j hj
    obtain ⟨g, hg, hnode⟩ := h.dispatched_mem hgs hj
    exact hapart g hg j.node hnode
  refine ⟨fun hmem => ?_, fun j hj => (hothers j hj).2⟩
  obtain ⟨j, hj, hid⟩ := List.mem_map.1 hmem
  exact (hothers j hj).1 hid.symm

/-- Where nothing fails and nobody cancels, all nodes starve that read a value which the cache lacks and no
node produces. -/
theorem Passes.starves (hgs : ∀ g ∈ gs, g.Accepted) (hseparate : gs.Pairwise Graph.Separate)
    (hout : ∀ g ∈ gs, ∀ n ∈ g.nodes, spec ∉ n.outputs) (hlacks : p.state.caches.Lacks w.cache spec)
    (h : Passes w gs p runs outcome p') (hok : outcome = .ok ()) (hgoing : p'.state.cancelled = false) :
    ∀ g ∈ gs, ∀ n ∈ g.nodes, spec ∈ n.inputs → p'.state.tracker.Starved spec n.id := by
  induction h with
  | ended => exact List.forall_mem_nil _
  | cut cancelled => simp [cancelled] at hgoing
  | failed => cases hok
  | @graph g rest p past r report runs outcome p' going run done ok next ih =>
    obtain ⟨hg, hrest⟩ := List.forall_mem_cons.1 hgs
    obtain ⟨hapart, hseparate⟩ := List.pairwise_cons.1 hseparate
    obtain ⟨hout, houts⟩ := List.forall_mem_cons.1 hout
    have hlacks' := run.lacks hg.wellFormed hout hlacks
    refine List.forall_mem_cons.2 ⟨fun n hn hin => ?_, ih hrest hseparate houts hlacks' hok hgoing⟩
    have ho := run.orderly hg.wellFormed
    have hstarving := run.starving hg.wellFormed hout hlacks
    have hfatal := GraphRun.fatal_of_result ok
    have hrunning : r.isStopped = false := by
      simp [GraphRun.isStopped, GraphRun.going_of_closed (next.going hgoing), hfatal]
    have hdispatched := (ho.dispatched_perm hg.wellFormed done hrunning).mem_iff.2 hn
    obtain ⟨hothers, -⟩ := next.dispatched_apart hrest fun a ha m hm => hapart a ha n hn m hm
    obtain ⟨hstate, hreason⟩ := (next.confined hrest).nodes n.id hothers
    exact (hstarving.starved ho done hfatal hdispatched hin).frame hstate hreason

end Passes

/-! ### The operations -/

variable {σ : Type} {c : Context σ} {s s₁ s₂ : Session σ} {now : Int} {spec : Specification}

theorem seed_lacks {f : Feed σ} {token : Token} {handle : CacheHandle} (rest : List Requirement)
    (hrest : ∀ r ∈ rest, r.resolve ≠ spec) {seeding : Seeding σ}
    (h : seeding.world.caches.Lacks handle spec) :
    (seed f token handle rest seeding).2.world.caches.Lacks handle spec := by
  induction rest generalizing seeding with
  | nil => exact h
  | cons r rest ih =>
    obtain ⟨hr, hrest⟩ := List.forall_mem_cons.1 hrest
    by_cases hseeded : r.resolve ∈ seeding.seeded
    · rw [seed, if_pos hseeded]
      exact ih hrest h
    · rw [seed_cons _ _ _ _ hseeded]
      split
      · split
        · next hwrite => exact ih hrest (h.write hr hwrite)
        · exact h
      · exact ih hrest h

/-- What a preparation does not seed is not in the cache, if it was not there before. -/
theorem prepare_lacks (hprepare : s.prepare c now = (.ok (), s₁))
    (hlive : ∀ d ∈ s.cycle.model.liveData, d.resolve ≠ spec)
    (hfree : ∀ token, s₁.cycle.snapshot = some token → s.world.caches.Free s.cycle.view token spec) :
    s₁.cycle.model = s.cycle.model ∧ s₁.cycle.calls = s.cycle.calls ∧
      ∀ handle, s₁.cycle.cache = some handle → s₁.world.caches.Lacks handle spec := by
  have hcases := s.prepare_cases c now
  rw [hprepare] at hcases
  cases hcases with
  | @done stage token feed handle acquired seeding answer opened seeded =>
    obtain ⟨hacquire, -, hcycle⟩ := acquire_eq opened
    have hlacks : acquired.world.caches.Lacks handle spec := by
      have hfree' := hfree token (by simp [prepared, hcycle])
      unfold CacheStore.Free at hfree'
      rw [show s.world.caches.acquire s.cycle.view token = _ from hacquire] at hfree'
      exact hfree'
    have hmodel : acquired.cycle.model = s.cycle.model := by rw [hcycle]; rfl
    refine ⟨hmodel, by simp [prepared, hcycle, withFeed], ?_⟩
    intro handle' hhandle'
    obtain rfl : handle = handle' := by simpa [prepared, hcycle] using hhandle'
    have hrest : ∀ d ∈ acquired.cycle.model.liveData.elements, d.resolve ≠ spec := by
      rw [hmodel]
      exact hlive
    have hseeded : (seed c.feed token handle acquired.cycle.model.liveData.elements
        { world := acquired.world }).2.world.caches.Lacks handle spec := seed_lacks _ hrest hlacks
    rw [seeded] at hseeded
    exact hseeded

theorem execute_starves (hpool : c.pool.Completes fun _ => True) (hmodel : s.cycle.model.WellFormed)
    (hgs : ∀ g ∈ s.cycle.model.graphs, g.Accepted)
    (hout : ∀ g ∈ s.cycle.model.graphs, ∀ n ∈ g.nodes, spec ∉ n.outputs)
    (hlacks : ∀ handle, s.cycle.cache = some handle → s.world.caches.Lacks handle spec)
    (hexecute : s.execute c = (.ok (), s₂)) (hgoing : s₂.cycle.cancelled = false) :
    ∀ g ∈ s.cycle.model.graphs, ∀ n ∈ g.nodes, spec ∈ n.inputs → s₂.cycle.tracker.Starved spec n.id := by
  have hcases := s.execute_cases c
  rw [hexecute] at hcases
  cases hcases with
  | @ran stage token handle snapshot cache outcome p graphs =>
    have hmem : ∀ g ∈ s.cycle.model.schedule, g ∈ s.cycle.model.graphs := fun g hg => Model.mem_schedule.1 hg
    have haccepted : ∀ g ∈ s.cycle.model.schedule, g.Accepted := fun g hg => hgs g (hmem g hg)
    obtain ⟨runs, hpasses⟩ :=
      runGraphs_passes (w := s.setting c token handle) hpool haccepted s.progress
    rw [graphs] at hpasses
    intro g hg
    exact hpasses.starves haccepted hmodel.separate_schedule (fun g hg => hout g (hmem g hg))
      (hlacks handle cache) rfl hgoing g (Model.mem_schedule.2 hg)

/-- Nothing is called that reads a value which the cache lacks and no node produces. -/
theorem execute_uncalled (hpool : c.pool.Completes fun _ => True)
    (hgs : ∀ g ∈ s.cycle.model.graphs, g.Accepted)
    (hout : ∀ g ∈ s.cycle.model.graphs, ∀ n ∈ g.nodes, spec ∉ n.outputs)
    (hlacks : ∀ handle, s.cycle.cache = some handle → s.world.caches.Lacks handle spec) :
    ∀ call ∈ (s.execute c).2.cycle.calls, call ∈ s.cycle.calls ∨
      ∃ g ∈ s.cycle.model.graphs, ∃ n ∈ g.nodes, n.id = call.node ∧ spec ∉ n.inputs := by
  intro call hcall
  have htraced := execute_traced (· = spec) .empty hpool hgs
    (fun g hg n hn _ hspec he => hout g hg n hn (he ▸ hspec))
    (fun handle hhandle => CacheStore.agrees_iff_lacks.2 (hlacks handle hhandle)) call hcall
  exact htraced.imp_right fun ⟨g, hg, h⟩ => ⟨g, hg, h.not_read⟩

/-- A requirement dangles in a built model where nothing that is declared satisfies it. Then its node fails for
want of the resolution of the requirement, and the calculation is not called, in every execution of a new cycle
that goes well and that nobody cancels: whatever the feed and the calculations answer, and whatever turns the
jobs take. The cache must not have had a value for the resolution before, and nothing may provide one; nothing
does if the requirement names acceptable values for each property that it constrains. -/
theorem dangling_starves {b : Blueprint} {m : Model} (hbuild : b.build = .ok m)
    (hpool : c.pool.Completes fun _ => True) {world : World σ} {id : Uuid} {view : String} {results : Results}
    (hprepare : prepare c now ⟨world, Cycle.create id view m results⟩ = (.ok (), s₁))
    (hexecute : s₁.execute c = (.ok (), s₂)) (hgoing : s₂.cycle.cancelled = false) {i : Nat} {r : Registration}
    (hplace : b.registrations[i]? = some r) {q : Requirement} (hq : q ∈ r.requirements) (hdangles : b.Dangles q)
    (hfree : ∀ token, s₁.cycle.snapshot = some token → world.caches.Free view token q.resolve)
    (hunprovided : (∀ e ∈ q.constraints.entries, e.2.isEmpty = false) ∨ b.Unprovided m q.resolve) :
    s₂.cycle.Starves q.resolve ⟨i⟩ := by
  have hun : b.Unprovided m q.resolve := hunprovided.elim (hdangles.unprovided hbuild) fun h => h
  obtain ⟨hmodel, hcalls, hlacks⟩ := prepare_lacks hprepare hun.unseeded hfree
  have hm : s₁.cycle.model = m := hmodel
  have hgs : ∀ g ∈ s₁.cycle.model.graphs, g.Accepted := by
    rw [hm]
    exact fun g hg => Blueprint.accepted_of_build hbuild hg
  have hout : ∀ g ∈ s₁.cycle.model.graphs, ∀ n ∈ g.nodes, q.resolve ∉ n.outputs := by
    rw [hm]
    exact fun g hg n hn => hun.not_mem_outputs hbuild hg hn
  have hwf : s₁.cycle.model.WellFormed := hm ▸ (Blueprint.build_ok hbuild).2
  have hin := Blueprint.mem_inputs_of_dangles hdangles (i := i) hq
  constructor
  · obtain ⟨g, hg, -, hn⟩ := Blueprint.exists_graph hbuild
      (Blueprint.mem_nodes.2 ⟨r, hplace, rfl⟩ : b.nodeAt i r ∈ b.nodes)
    rw [← hm] at hg
    exact execute_starves hpool hwf hgs hout hlacks hexecute hgoing g hg _ hn hin
  · intro call hcall hid
    have hcall' : call ∈ (s₁.execute c).2.cycle.calls := by rwa [hexecute]
    rcases execute_uncalled hpool hgs hout hlacks call hcall' with hold | ⟨g, hg, n, hn, hcalled, hnot⟩
    · rw [hcalls] at hold
      cases hold
    · -- the node that was called is the one at the place of the registration
      rw [hm] at hg
      have hnode := (Model.nodes_of_ofGraphs (Blueprint.build_steps hbuild).2).2 g hg n hn
      rw [hcalled, hid, Blueprint.node?_of_build hbuild hplace] at hnode
      rw [← Option.some.inj hnode] at hnot
      exact hnot hin

/-! A curve without a kind, and a calculation that asks for a curve of certain kinds, or of any kind where none
is named. -/

def eurCurve (kinds : List String) : Requirement where
  name := "Curve"
  target := .primitive "EUR"
  constraints := .ofList [("Curve", .ofList kinds)]

def ofKind (kinds : List String) : Calculation where
  name := "ofKind"
  requirements _ := [eurCurve kinds]
  results _ := [sampleValue "Price"]
  call _ _ _ := ⟨.values [⟨sampleValue "Price", .text "100"⟩], []⟩

def kindless (kinds : List String) : Blueprint where
  registrations := [⟨.primitive "EUR", constantly ["Curve"]⟩, ⟨.primitive "EUR", ofKind kinds⟩]

theorem kindless_dangles (kinds : List String) : (kindless kinds).Dangles (eurCurve kinds) where
  unproduced := by
    intro r hr spec hspec
    simp only [kindless, List.mem_cons, List.not_mem_nil, or_false] at hr
    rcases hr with rfl | rfl
    · obtain rfl := List.mem_singleton.1 hspec
      rfl
    · obtain rfl := List.mem_singleton.1 hspec
      rfl
  undeclared := List.forall_mem_nil _

theorem estr_starves :
    ∃ m s₁ s₂, (kindless ["ESTR", "SOFR"]).build = .ok m ∧ (newcomer m).prepare overMemory 7 = (.ok (), s₁) ∧
      s₁.execute overMemory = (.ok (), s₂) ∧
      s₂.cycle.Starves (eurCurve ["ESTR", "SOFR"]).resolve ⟨1⟩ := by
  obtain ⟨m, hm⟩ : ∃ m, (kindless ["ESTR", "SOFR"]).build = .ok m := ⟨_, rfl⟩
  obtain ⟨s₁, hprepare⟩ : ∃ s₁, (newcomer m).prepare overMemory 7 = (.ok (), s₁) := by
    cases hm
    exact ⟨_, rfl⟩
  obtain ⟨s₂, hexecute, hgoing⟩ : ∃ s₂, s₁.execute overMemory = (.ok (), s₂) ∧ s₂.cycle.cancelled = false := by
    cases hm
    cases hprepare
    exact ⟨_, rfl, rfl⟩
  refine ⟨m, s₁, s₂, hm, hprepare, hexecute, ?_⟩
  exact dangling_starves hm (WorkerPool.single_completes.mono fun _ _ => trivial) hprepare hexecute hgoing
    (i := 1) rfl List.mem_cons_self (kindless_dangles _) (fun _ _ => CacheStore.free_of_new rfl _)
    (Or.inl (by decide))

/-- The requirement for a curve of any kind dangles, for there is none of a kind; but the curve without a kind is
its resolution, and the calculation is called on that. -/
theorem any_kind_called :
    (kindless []).Dangles (eurCurve []) ∧ ∃ m s₁ s₂, (kindless []).build = .ok m ∧
      (newcomer m).prepare overMemory 7 = (.ok (), s₁) ∧ s₁.execute overMemory = (.ok (), s₂) ∧
      s₂.cycle.cancelled = false ∧ s₂.cycle.tracker.state? ⟨1⟩ = some .executed ∧
      ∃ call ∈ s₂.cycle.calls, call.node = ⟨1⟩ := by
  refine ⟨kindless_dangles [], _, _, _, rfl, rfl, rfl, rfl, rfl, ?_⟩
  exact ⟨_, List.mem_cons_of_mem _ List.mem_cons_self, rfl⟩

end Session

end CalcCycle
