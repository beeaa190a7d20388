import CalcCycle.Proofs.Cycle.Activity
import CalcCycle.Proofs.Cycle.Dangling
import CalcCycle.Proofs.Cycle.Results
import CalcCycle.Proofs.Execution.Withholding

/-! What is reported of a cycle. The results get the values that the cache has for the outputs of positions and of
aggregates of positions; all that they had before for other specifications stays. It makes no difference that the
values are added one by one, for the cache is closed to all reads or to none. -/

namespace CalcCycle

/-- The specification is an output for a position, or for an aggregate of positions. -/
def Model.Reports (m : Model) (spec : Specification) : Prop :=
  ∃ g ∈ m.graphs, (g.target.kind = .position ∨ g.target.kind = .multiplePositions) ∧ spec ∈ g.outputs

theorem Session.mem_reported {m : Model} {spec : Specification} : spec ∈ Session.reported m ↔ m.Reports spec := by
  unfold Session.reported TargetKind.reportable Model.partition Model.Reports
  simp only [List.flatMap_cons, List.flatMap_nil, List.append_nil, List.mem_append, List.mem_flatMap,
    List.mem_filter, beq_iff_eq, or_and_right, and_or_left, exists_or, and_assoc]

/-! ### Reading and adding -/

namespace CacheStore

/-- The value that is found in the cache, if the cache is open. -/
def found? (s : CacheStore) (h : CacheHandle) (spec : Specification) : Option Computed :=
  (s.read h spec).toOption.join

/-- A cache answers all reads or refuses all of them. -/
theorem read_cases (s : CacheStore) (h : CacheHandle) :
    (∀ spec, s.read h spec = .ok (s.found? h spec)) ∨
      ∃ c, s.get? h = some c ∧ c.isReleased = true ∧ ∀ spec, s.read h spec = .error (.released c.view c.token) := by
  cases hc : s.get? h with
  | none => exact Or.inl fun spec => by simp [found?, read, hc, Except.toOption]
  | some c =>
    cases hr : c.isReleased with
    | false =>
      refine Or.inl fun spec => ?_
      have hread := read_of_open (open?_eq_some_iff.2 ⟨c, hc, hr, rfl⟩) spec
      rw [found?, hread]
      rfl
    | true =>
      refine Or.inr ⟨c, rfl, hr, fun spec => ?_⟩
      simp only [read, hc, Cache.get, Cache.ensureLive, hr, if_true]
      rfl

section Found
variable {s : CacheStore} {h : CacheHandle} {spec : Specification} {v : Computed}

theorem found?_eq_some_iff : s.found? h spec = some v ↔ s.read h spec = .ok (some v) := by
  rcases s.read_cases h with hread | ⟨c, -, -, hread⟩
  · rw [hread, Except.ok.injEq]
  · simp [found?, hread, Except.toOption]

theorem specification_of_found (hv : s.found? h spec = some v) : v.specification = spec := by
  obtain ⟨-, -, hspec, -⟩ := open_of_read (found?_eq_some_iff.1 hv)
  exact hspec

end Found

end CacheStore

namespace Results

theorem get?_add (r : Results) (v : Computed) (spec : Specification) :
    (r.add v).get? spec = if v.specification = spec then some v else r.get? spec := by
  unfold get? add
  rw [SortedMap.get?_insert]
  by_cases hs : v.specification = spec
  · subst hs
    simp
  · simp [hs, Ne.symm hs]

theorem addAll_append (r : Results) (vs ws : List Computed) : r.addAll (vs ++ ws) = (r.addAll vs).addAll ws :=
  List.foldl_append

/-- Values are added, and nothing else is changed. -/
theorem addAll_eq (r : Results) (vs : List Computed) : r.addAll vs = { r with values := (r.addAll vs).values } := by
  induction vs generalizing r with
  | nil => rfl
  | cons v rest ih => exact ih (r.add v)

/-- Reads the values one by one, and adds each as soon as it is read. -/
def transfer (caches : CacheStore) (cache : CacheHandle) :
    List Specification → Results → Except CacheError Unit × Results
  | [], r => (.ok (), r)
  | spec :: rest, r =>
    match caches.read cache spec with
    | .error e => (.error e, r)
    | .ok found => transfer caches cache rest (r.addAll found.toList)

end Results

namespace Session
variable {caches : CacheStore} {handle : CacheHandle}

theorem collect_found (h : ∀ spec, caches.read handle spec = .ok (caches.found? handle spec))
    (specs : List Specification) :
    collect caches handle specs = .ok (specs.filterMap (caches.found? handle)) := by
  induction specs with
  | nil => rfl
  | cons spec rest ih =>
    rw [collect, h, ih]
    cases hfound : caches.found? handle spec <;> simp [hfound, bind, Except.bind, pure, Except.pure]

theorem collect_refused {e : CacheError} (h : ∀ spec, caches.read handle spec = .error e) {specs : List Specification}
    (hsome : specs ≠ []) : collect caches handle specs = .error e := by
  obtain ⟨spec, rest, rfl⟩ := List.exists_cons_of_ne_nil hsome
  rw [collect, h]
  rfl

/-- What is collected is what the cache has. -/
theorem collect_eq_found {specs : List Specification} {vs : List Computed}
    (h : collect caches handle specs = .ok vs) : vs = specs.filterMap (caches.found? handle) := by
  rcases caches.read_cases handle with hread | ⟨c, -, -, hread⟩
  · rw [collect_found hread] at h
    exact (Except.ok.inj h).symm
  · by_cases hnil : specs = []
    · subst hnil
      cases h
      rfl
    · rw [collect_refused hread hnil] at h
      cases h

theorem released_of_collect {specs : List Specification} {e : CacheError}
    (h : collect caches handle specs = .error e) :
    ∃ c, caches.get? handle = some c ∧ c.isReleased = true ∧ e = .released c.view c.token := by
  rcases caches.read_cases handle with hread | ⟨c, hc, hr, hread⟩
  · rw [collect_found hread] at h
    cases h
  · have hsome : specs ≠ [] := by
      rintro rfl
      cases h
    rw [collect_refused hread hsome] at h
    exact ⟨c, hc, hr, (Except.error.inj h).symm⟩

theorem transfer_found (h : ∀ spec, caches.read handle spec = .ok (caches.found? handle spec))
    (specs : List Specification) (r : Results) :
    r.transfer caches handle specs = (.ok (), r.addAll (specs.filterMap (caches.found? handle))) := by
  induction specs generalizing r with
  | nil => rfl
  | cons spec rest ih =>
    rw [Results.transfer, h]
    refine (ih _).trans ?_
    rw [← Results.addAll_append]
    cases hfound : caches.found? handle spec <;> simp [hfound]

/-- Adding each value as it is read comes to the same as adding all of them when they have been read. -/
theorem transfer_eq (specs : List Specification) (r : Results) :
    r.transfer caches handle specs =
      match collect caches handle specs with
      | .ok vs => (.ok (), r.addAll vs)
      | .error e => (.error e, r) := by
  rcases caches.read_cases handle with hread | ⟨c, -, -, hread⟩
  · rw [collect_found hread, transfer_found hread]
  · cases specs with
    | nil => rfl
    | cons spec rest =>
      rw [collect_refused hread (List.cons_ne_nil _ _), Results.transfer, hread]

theorem get?_addAll_found (specs : List Specification) (r : Results) (spec : Specification) :
    (r.addAll (specs.filterMap (caches.found? handle))).get? spec =
      (if spec ∈ specs then caches.found? handle spec else none).or (r.get? spec) := by
  induction specs generalizing r with
  | nil => simp [Results.addAll]
  | cons a rest ih =>
    cases hfound : caches.found? handle a with
    | none =>
      rw [List.filterMap_cons_none hfound, ih]
      by_cases hspec : spec = a
      · subst hspec
        simp [hfound]
      · simp [hspec]
    | some v =>
      rw [List.filterMap_cons_some hfound]
      change ((r.add v).addAll _).get? spec = _
      rw [ih, Results.get?_add, CacheStore.specification_of_found hfound]
      by_cases hspec : spec = a
      · subst hspec
        by_cases hmem : spec ∈ rest <;> simp [hfound, hmem]
      · simp [hspec, Ne.symm hspec]

/-! ### Collecting the results -/

variable {σ : Type} {s s' : Session σ} {vs : List Computed}

/-- The results have been collected from the cache with the handle, and nothing else has been done. -/
structure Populated (s s' : Session σ) (handle : CacheHandle) (now : Int) : Prop where
  found : ∀ spec v, s.cycle.model.Reports spec → s.world.caches.read handle spec = .ok (some v) →
    s'.cycle.results.get? spec = some v
  before : ∀ spec, (s.cycle.model.Reports spec → ∀ v, s.world.caches.read handle spec ≠ .ok (some v)) →
    s'.cycle.results.get? spec = s.cycle.results.get? spec
  world : s'.world = s.world
  cycle : s'.cycle =
    { s.cycle with
      results := { s.cycle.results with values := s'.cycle.results.values, computedAt := some (.ofMillis now) }
      stats := { s.cycle.stats with resultValues := s'.cycle.results.size }
      stage := .resultsPopulated }
  /-- Collecting once more goes well and changes no value. -/
  again : ∀ later, ∃ s'', s'.populate later = (.ok (), s'') ∧ s''.cycle.results.values = s'.cycle.results.values

theorem populate_eq {token : Token} {handle : CacheHandle}
    (hstage : s.cycle.stage ∈ Operation.allowed .populateResults) (hacquired : s.cycle.acquired = .ok (token, handle))
    (now : Int) :
    s.populate now =
      match collect s.world.caches handle (reported s.cycle.model) with
      | .error e => (.error (.cache e), s)
      | .ok vs => (.ok (), s.filled now vs) := by
  unfold populate
  simp only [Cycle.expect_ok hstage, hacquired]
  cases collect s.world.caches handle (reported s.cycle.model) <;> rfl

theorem get?_filled (hcollect : collect s.world.caches handle (reported s.cycle.model) = .ok vs) (now : Int)
    (spec : Specification) :
    (s.filled now vs).cycle.results.get? spec =
      (if spec ∈ reported s.cycle.model then s.world.caches.found? handle spec else none).or
        (s.cycle.results.get? spec) := by
  obtain rfl := collect_eq_found hcollect
  exact get?_addAll_found _ _ _

theorem filled_populated {token : Token} (hacquired : s.cycle.acquired = .ok (token, handle))
    (hcollect : collect s.world.caches handle (reported s.cycle.model) = .ok vs) (now : Int) :
    s.Populated (s.filled now vs) handle now where
  found spec v hreports hread := by
    rw [get?_filled hcollect, if_pos (mem_reported.2 hreports), CacheStore.found?_eq_some_iff.2 hread]
    rfl
  before spec hnone := by
    rw [get?_filled hcollect]
    split_ifs with hmem
    · have hfound : s.world.caches.found? handle spec = none := Option.eq_none_iff_forall_ne_some.2 fun v hv =>
        hnone (mem_reported.1 hmem) v (CacheStore.found?_eq_some_iff.1 hv)
      rw [hfound, Option.none_or]
    · rfl
  world := rfl
  cycle := by
    have hresults : (s.filled now vs).cycle.results = { s.cycle.results with
        values := (s.filled now vs).cycle.results.values, computedAt := some (.ofMillis now) } :=
      congrArg (fun r : Results => { r with computedAt := some (.ofMillis now) }) (s.cycle.results.addAll_eq vs)
    rw [← hresults]
    rfl
  again later := by
    set t := s.filled now vs
    have hagain : collect t.world.caches handle (reported t.cycle.model) = .ok vs := hcollect
    refine ⟨t.filled later vs, ?_, Results.values_ext fun spec => ?_⟩
    · rw [populate_eq (by simp [t, filled, Operation.allowed]) (by exact hacquired) later, hagain]
    · -- what has been found before is found again
      rw [get?_filled hagain, get?_filled hcollect, ← Option.or_assoc]
      exact congrArg (Option.or · _) Option.or_self

section Populate
variable {s' : Session σ} {now : Int} {e : Failure}

theorem exists_populated (h : s.populate now = (.ok (), s')) :
    ∃ handle, s.cycle.cache = some handle ∧ s.Populated s' handle now := by
  have hcases := s.populate_cases now
  rw [h] at hcases
  cases hcases with
  | @filled stage handle cache vs collected =>
    refine ⟨handle, cache, ?_⟩
    rcases s.cycle.acquired_cases with ⟨token, handle', -, hcache, hacquired⟩ | ⟨-, hacquired⟩
    · obtain rfl := Option.some.inj (cache.symm.trans hcache)
      exact filled_populated hacquired collected now
    · unfold populate at h
      simp only [Cycle.expect_ok stage, hacquired] at h
      cases h

theorem populate_error (h : s.populate now = (.error e, s')) : s' = s := by
  have hcases := s.populate_cases now
  rw [h] at hcases
  cases hcases <;> rfl

/-- Where the values can be collected but are not, the cache has been closed. -/
theorem released_of_populate (hstage : s.cycle.stage ∈ Operation.allowed .populateResults)
    (hequipped : s.cycle.Equipped) (h : s.populate now = (.error e, s')) :
    ∃ handle c, s.cycle.cache = some handle ∧ s.world.caches.get? handle = some c ∧ c.isReleased = true ∧
      e = .cache (.released c.view c.token) := by
  obtain ⟨token, handle, -, hcache, hacquired⟩ := hequipped.acquired (List.mem_cons_of_mem _ hstage)
  rw [populate_eq hstage hacquired] at h
  split at h
  · next hcollect =>
    obtain ⟨c, hc, hr, rfl⟩ := released_of_collect hcollect
    cases h
    exact ⟨handle, c, hcache, hc, hr, rfl⟩
  · cases h

/-- It comes to the same whether the values are added when all of them have been read, or each as it is read. -/
theorem populate_transfer {token : Token} (hstage : s.cycle.stage ∈ Operation.allowed .populateResults)
    (hacquired : s.cycle.acquired = .ok (token, handle)) (now : Int) :
    (s.populate now).1 =
        (s.cycle.results.transfer s.world.caches handle (reported s.cycle.model)).1.mapError .cache ∧
      (s.populate now).2.cycle.results.values =
        (s.cycle.results.transfer s.world.caches handle (reported s.cycle.model)).2.values := by
  rw [populate_eq hstage hacquired, transfer_eq]
  cases collect s.world.caches handle (reported s.cycle.model) <;> exact ⟨rfl, rfl⟩

end Populate

/-! ### What is not reported -/

section Passes
variable {w : RunSetting} {gs : List Graph} {p p' : Progress} {runs : List Passage} {outcome : Except Failure Unit}

/-- When the first graph has been run, its nodes are discreet, and nothing is written of the nodes of the others. -/
theorem discreet_first {g : Graph} {rest : List Graph} {k : Nat} {s : RunState} {past : History} {r : GraphRun}
    {allowed : Move → Prop} (hg : g.Accepted) (hapart : ∀ a ∈ rest, g.Separate a)
    (hnew : ∀ a ∈ g :: rest, ∀ n ∈ a.nodes, n.Withheld s.caches w.cache)
    (run : GraphRun.Reached allowed w (.start w g s k) past r) (done : r.isDone = true) :
    (∀ n ∈ g.nodes, n.Discreet (r.closed w g).state w.cache) ∧
      ∀ a ∈ rest, ∀ n ∈ a.nodes, n.Withheld (r.closed w g).state.caches w.cache := by
  obtain ⟨hfirst, hrest⟩ := List.forall_mem_cons.1 hnew
  have hown : ∀ n ∈ g.nodes, n.Discreet r.state w.cache := fun n hn => run.discreet hg.wellFormed hfirst done hn
  have hothers : ∀ a ∈ rest, ∀ n ∈ a.nodes, n.Withheld r.state.caches w.cache := fun a ha n hn =>
    run.withheld_apart hg.wellFormed (fun m hm _ => (hapart a ha m hm n hn).2.symm) (hrest a ha n hn)
  exact ⟨hown, hothers⟩

theorem Passes.discreet (hgs : ∀ g ∈ gs, g.Accepted) (hseparate : gs.Pairwise Graph.Separate)
    (hnew : ∀ g ∈ gs, ∀ n ∈ g.nodes, n.Withheld p.state.caches w.cache) (h : Passes w gs p runs outcome p') :
    ∀ g ∈ gs, ∀ n ∈ g.nodes, n.Discreet p'.state w.cache := by
  induction h with
  | ended => exact List.forall_mem_nil _
  | cut => exact fun g hg n hn => Or.inr (hnew g hg n hn)
  | failed going run done =>
    obtain ⟨hg, -⟩ := List.forall_mem_cons.1 hgs
    obtain ⟨hapart, -⟩ := List.pairwise_cons.1 hseparate
    obtain ⟨hfirst, hrest⟩ := discreet_first hg hapart hnew run done
    exact List.forall_mem_cons.2 ⟨hfirst, fun a ha n hn => Or.inr (hrest a ha n hn)⟩
  | graph going run done ok next ih =>
    obtain ⟨hg, hgs⟩ := List.forall_mem_cons.1 hgs
    obtain ⟨hapart, hseparate⟩ := List.pairwise_cons.1 hseparate
    obtain ⟨hfirst, hrest⟩ := discreet_first hg hapart hnew run done
    refine List.forall_mem_cons.2 ⟨fun n hn => ?_, ih hgs hseparate hrest⟩
    obtain ⟨hid, hothers⟩ := next.dispatched_apart hgs fun a ha m hm => hapart a ha n hn m hm
    exact (hfirst n hn).frame (next.confined hgs) hid hothers

end Passes

section Withheld
variable {c : Context σ} {s₁ : Session σ} {now : Int} {n : Node}

theorem prepare_keeps (c : Context σ) (now : Int) (s : Session σ) :
    (s.prepare c now).2.cycle.model = s.cycle.model ∧
      (s.prepare c now).2.cycle.results.values = s.cycle.results.values := by
  have hcases := s.prepare_cases c now
  generalize s.prepare c now = after at hcases
  cases hcases with
  | refused | noSnapshot => exact ⟨rfl, rfl⟩
  | brokenOff stage answer opened | done stage answer opened =>
    obtain ⟨-, -, hcycle⟩ := acquire_eq opened
    simp only [prepared, hcycle]
    exact ⟨rfl, rfl⟩

theorem prepare_withholds {b : Blueprint} {m : Model} (hbuild : b.build = .ok m) (hmodel : s.cycle.model = m)
    (hprepare : s.prepare c now = (.ok (), s₁))
    (hfree : ∀ token spec, s₁.cycle.snapshot = some token → s.world.caches.Free s.cycle.view token spec)
    (hcache : s₁.cycle.cache = some handle) {g : Graph} (hg : g ∈ m.graphs) (hn : n ∈ g.nodes) :
    n.Withheld s₁.world.caches handle := by
  intro spec hspec
  have hlive : ∀ d ∈ s.cycle.model.liveData, d.resolve ≠ spec := by
    rw [hmodel]
    rintro d hd rfl
    exact Blueprint.live_not_produced hbuild hd hg hn hspec
  exact (prepare_lacks hprepare hlive fun token => hfree token spec).2.2 handle hcache

theorem execute_keeps (c : Context σ) (s : Session σ) :
    (s.execute c).2.cycle.cache = s.cycle.cache ∧ (s.execute c).2.cycle.results = s.cycle.results := by
  have hcases := s.execute_cases c
  generalize s.execute c = after at hcases
  cases hcases <;> exact ⟨rfl, rfl⟩

theorem execute_discreet (hpool : c.pool.Completes fun _ => True) (hmodel : s.cycle.model.WellFormed)
    (hgs : ∀ g ∈ s.cycle.model.graphs, g.Accepted) (hcache : s.cycle.cache = some handle)
    (hnew : ∀ g ∈ s.cycle.model.graphs, ∀ n ∈ g.nodes, n.Withheld s.world.caches handle) :
    ∀ g ∈ s.cycle.model.graphs, ∀ n ∈ g.nodes, (s.execute c).2.cycle.tracker.state? n.id = some .executed ∨
      n.Withheld (s.execute c).2.world.caches handle := by
  intro g hg n hn
  have hcases := s.execute_cases c
  generalize s.execute c = after at hcases
  cases hcases with
  | refused => exact Or.inr (hnew g hg n hn)
  | @ran stage token handle' snapshot cache outcome p graphs =>
    obtain rfl := Option.some.inj (hcache.symm.trans cache)
    have hmem : ∀ g ∈ s.cycle.model.schedule, g ∈ s.cycle.model.graphs := fun g hg => Model.mem_schedule.1 hg
    have haccepted : ∀ g ∈ s.cycle.model.schedule, g.Accepted := fun g hg => hgs g (hmem g hg)
    obtain ⟨runs, hpasses⟩ := runGraphs_passes (w := s.setting c token handle) hpool haccepted s.progress
    rw [graphs] at hpasses
    exact hpasses.discreet haccepted hmodel.separate_schedule (fun g hg => hnew g (hmem g hg)) g
      (Model.mem_schedule.2 hg) n hn

/-- What the cache lacks does not come to be among the results. -/
theorem populate_absent {spec : Specification} (hlacks : ∀ handle, s.cycle.cache = some handle →
      s.world.caches.Lacks handle spec) (habsent : s.cycle.results.get? spec = none) (now : Int) :
    (s.populate now).2.cycle.results.get? spec = none := by
  cases hpopulate : s.populate now with
  | mk outcome s' =>
    cases outcome with
    | error e =>
      rw [populate_error hpopulate]
      exact habsent
    | ok u =>
      obtain ⟨handle, hcache, hpopulated⟩ := exists_populated hpopulate
      exact (hpopulated.before spec fun _ _ => (hlacks handle hcache).not_found).trans habsent

theorem populate_tracker (now : Int) (s : Session σ) : (s.populate now).2.cycle.tracker = s.cycle.tracker := by
  have hcases := s.populate_cases now
  generalize s.populate now = after at hcases
  cases hcases <;> rfl

theorem unexecuted_absent (hpool : c.pool.Completes fun _ => True) (hmodel : s.cycle.model.WellFormed)
    (hgs : ∀ g ∈ s.cycle.model.graphs, g.Accepted) (hempty : s.cycle.results.values = .empty)
    (hnew : ∀ handle, s.cycle.cache = some handle →
      ∀ g ∈ s.cycle.model.graphs, ∀ n ∈ g.nodes, n.Withheld s.world.caches handle) {g : Graph}
    (hg : g ∈ s.cycle.model.graphs) (hn : n ∈ g.nodes)
    (hstate : ((s.execute c).2.populate now).2.cycle.tracker.state? n.id ≠ some .executed) {spec : Specification}
    (hspec : spec ∈ n.outputs) : ((s.execute c).2.populate now).2.cycle.results.get? spec = none := by
  rw [populate_tracker] at hstate
  obtain ⟨hcache, hresults⟩ := execute_keeps c s
  refine populate_absent (fun handle hhandle => ?_) ?_ now
  · rw [hcache] at hhandle
    rcases execute_discreet hpool hmodel hgs hhandle (hnew handle hhandle) g hg n hn with hexecuted | hwithheld
    · exact absurd hexecuted hstate
    · exact hwithheld spec hspec
  · rw [hresults, Results.get?, hempty]
    rfl

end Withheld

/-- Collecting the results gives them exactly the reported values that the cache has, changes nothing else, and can
be repeated; it does nothing at all if it fails, which happens only when the cache has been closed; and adding the
values as they are read would come to the same. If a cycle over a built model had no results before it was prepared
and nothing was in its cache, then it reports no output of a node that has not been executed, whichever nodes fail
and whenever the cycle is cancelled. -/
theorem results_populated :
    (∀ (s s' : Session σ) now, s.populate now = (.ok (), s') →
      ∃ handle, s.cycle.cache = some handle ∧ s.Populated s' handle now) ∧
    (∀ (s s' : Session σ) now e, s.populate now = (.error e, s') → s' = s ∧
      (s.cycle.stage ∈ Operation.allowed .populateResults → s.cycle.Equipped →
        ∃ handle c, s.cycle.cache = some handle ∧ s.world.caches.get? handle = some c ∧ c.isReleased = true ∧
          e = .cache (.released c.view c.token))) ∧
    (∀ (s : Session σ) now token handle, s.cycle.stage ∈ Operation.allowed .populateResults →
      s.cycle.acquired = .ok (token, handle) →
        (s.populate now).1 =
            (s.cycle.results.transfer s.world.caches handle (reported s.cycle.model)).1.mapError .cache ∧
          (s.populate now).2.cycle.results.values =
            (s.cycle.results.transfer s.world.caches handle (reported s.cycle.model)).2.values) ∧
    ∀ (c : Context σ) (b : Blueprint) m (s s₁ : Session σ) now cancelled later,
      c.pool.Completes (fun _ => True) → b.build = .ok m → s.cycle.model = m → s.cycle.results.values = .empty →
      s.prepare c now = (.ok (), s₁) →
      (∀ token spec, s₁.cycle.snapshot = some token → s.world.caches.Free s.cycle.view token spec) →
      let s₃ := ((execute c ⟨s₁.world, { s₁.cycle with cancelled }⟩).2.populate later).2
      ∀ g ∈ m.graphs, ∀ n ∈ g.nodes, s₃.cycle.tracker.state? n.id ≠ some .executed →
        ∀ spec ∈ n.outputs, s₃.cycle.results.get? spec = none := by
  refine ⟨fun _ _ _ => exists_populated, fun _ _ _ _ h => ⟨populate_error h, fun hstage hequipped =>
    released_of_populate hstage hequipped h⟩, fun _ now _ _ hstage hacquired =>
    populate_transfer hstage hacquired now, ?_⟩
  intro c b m s s₁ now cancelled later hpool hbuild hmodel hempty hprepare hfree s₃ g hg n hn hstate spec hspec
  obtain ⟨hkept, hvalues⟩ := prepare_keeps c now s
  rw [hprepare] at hkept hvalues
  obtain rfl : s₁.cycle.model = m := hkept.trans hmodel
  have hnew : ∀ handle, s₁.cycle.cache = some handle →
      ∀ g ∈ s₁.cycle.model.graphs, ∀ n ∈ g.nodes, n.Withheld s₁.world.caches handle :=
    fun handle hcache g hg n hn => prepare_withholds hbuild hmodel hprepare hfree hcache hg hn
  exact unexecuted_absent (s := ⟨s₁.world, { s₁.cycle with cancelled }⟩) hpool (Blueprint.build_ok hbuild).2
    (fun g hg => Blueprint.accepted_of_build hbuild hg) (hvalues.trans hempty) hnew hg hn hstate hspec

/-! A position whose risk cannot be calculated: the calculation gives up and cancels the cycle, so the aggregate is
not even begun. -/

/-- Cancels the cycle and crashes. -/
def quitter (output : String) : Calculation where
  name := "quitter"
  requirements _ := []
  results _ := [sampleValue output]
  call _ _ _ := ⟨.crash none, [.cancelCycle]⟩

def quitting : Blueprint where
  registrations :=
    [⟨.position "P", constantly ["Value"]⟩, ⟨.position "P", quitter "Risk"⟩,
      ⟨⟨.multiplePositions, "Book"⟩, constantly ["Sum"]⟩]

/-- Of the three values, only that of the position is reported. -/
theorem value_without_risk :
    ∃ m s₁, quitting.build = .ok m ∧ (newcomer m).prepare overMemory 7 = (.ok (), s₁) ∧
      let s₂ := (s₁.execute overMemory).2
      let s₃ := (s₂.populate 8).2
      s₂.cycle.tracker.states = [.executed, .failed, .notStarted] ∧ (∃ handle, s₂.Populated s₃ handle 8) ∧
      s₃.cycle.results.get? (sampleValue "Value") = some ⟨sampleValue "Value", .text "Value"⟩ ∧
      s₃.cycle.results.get? (sampleValue "Risk") = none ∧ s₃.cycle.results.get? (sampleValue "Sum") = none := by
  obtain ⟨m, hm⟩ : ∃ m, quitting.build = .ok m := ⟨_, rfl⟩
  obtain ⟨s₁, hprepare⟩ : ∃ s₁, (newcomer m).prepare overMemory 7 = (.ok (), s₁) := by
    cases hm
    exact ⟨_, rfl⟩
  have hstates : (s₁.execute overMemory).2.cycle.tracker.states = [.executed, .failed, .notStarted] := by
    cases hm
    cases hprepare
    rfl
  have hpopulate : (s₁.execute overMemory).2.populate 8 = (.ok (), ((s₁.execute overMemory).2.populate 8).2) := by
    cases hm
    cases hprepare
    rfl
  obtain ⟨hdone, -, -, habsent⟩ := @results_populated MemoryFeed
  obtain ⟨handle, -, hpopulated⟩ := hdone _ _ 8 hpopulate
  have hunreported : ∀ (i : Nat) (r : Registration), quitting.registrations[i]? = some r →
      (s₁.execute overMemory).2.cycle.tracker.states[i]? ≠ some NodeState.executed →
      ∀ spec ∈ (quitting.nodeAt i r).outputs,
        (populate 8 (s₁.execute overMemory).2).2.cycle.results.get? spec = none := by
    intro i r hplace hstate spec hspec
    obtain ⟨g, hg, -, hn⟩ := Blueprint.exists_graph hm
      (Blueprint.mem_nodes.2 ⟨r, hplace, rfl⟩ : quitting.nodeAt i r ∈ quitting.nodes)
    refine habsent overMemory quitting m (newcomer m) s₁ 7 s₁.cycle.cancelled 8
      (WorkerPool.single_completes.mono fun _ _ => trivial) hm rfl rfl hprepare
      (fun _ _ _ => CacheStore.free_of_new rfl _) g hg _ hn ?_ spec hspec
    rw [populate_tracker]
    exact hstate
  refine ⟨m, s₁, hm, hprepare, hstates, ⟨handle, hpopulated⟩, ?_, ?_, ?_⟩
  · cases hm
    cases hprepare
    rfl
  · exact hunreported 1 _ rfl (by simp [hstates]) _ List.mem_cons_self
  · exact hunreported 2 _ rfl (by simp [hstates]) _ List.mem_cons_self

end Session

end CalcCycle
