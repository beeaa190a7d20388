import CalcCycle.Proofs.Cycle.Cancellation
import CalcCycle.Proofs.Cycle.Seeding
import CalcCycle.Proofs.Graph.Recast

/-! How far the outcome of one node is felt. Nodes hear of one another through values only: a node that
fails leaves values out, and those who read them fail for what is missing. So in two cycles that differ in
the answers of one calculation, whatever the order of the jobs in each, all nodes end the same except that
node and those that depend on it. -/

namespace CalcCycle

namespace Model
variable {b : Blueprint} {m : Model} {n x : Node} {g : Graph} {t₀ t t₀' t' : Tracker} {V₀ V V₀' V' : Values}

/-- `y` reads a value that `x` may write; both are nodes of the model, be it of one graph or of two. -/
structure Supplies (m : Model) (x y : Node) : Prop where
  producer : ∃ g ∈ m.graphs, x ∈ g.nodes
  reader : ∃ g ∈ m.graphs, y ∈ g.nodes
  value : ∃ spec ∈ y.inputs, spec ∈ x.outputs

/-- The node itself and those that depend on it, directly or through others. -/
def Cone (m : Model) (n x : Node) : Prop := Relation.ReflTransGen m.Supplies n x

/-- What a node outside the cone reads comes from outside the cone. -/
theorem Cone.not_of_supplies {y : Node} (hy : ¬ m.Cone n y) (hs : m.Supplies x y) : ¬ m.Cone n x :=
  fun hx => hy (hx.tail hs)

/-- In two runs the nodes outside the cone look the same, and so does every value that no node of the cone
produces. -/
structure SameOutside (m : Model) (n : Node) (t : Tracker) (V : Values) (t' : Tracker) (V' : Values) : Prop where
  nodes : ∀ g ∈ m.graphs, ∀ x ∈ g.nodes, ¬ m.Cone n x → x.Unaffected t V t' V'
  values : ∀ spec, (∀ g ∈ m.graphs, ∀ x ∈ g.nodes, spec ∈ x.outputs → ¬ m.Cone n x) →
    V.get? spec = V'.get? spec

theorem SameOutside.refl (m : Model) (n : Node) (t : Tracker) (V : Values) : m.SameOutside n t V t V :=
  ⟨fun _ _ _ _ _ => ⟨rfl, rfl, fun _ _ => rfl⟩, fun _ _ => rfl⟩

/-- A graph of the model has been run. Its nodes outside the cone have ended as they are judged, and other
graphs have been left alone. -/
structure Passed (m : Model) (n : Node) (g : Graph) (t₀ : Tracker) (V₀ : Values) (t : Tracker) (V : Values) :
    Prop where
  mem : g ∈ m.graphs
  settled : SettlesSome Node.pureAnswer g.nodes V₀ (fun x => ¬ m.Cone n x) t V
  elsewhere : ∀ a ∈ m.graphs, a ≠ g → ∀ x ∈ a.nodes, x.Unaffected t₀ V₀ t V

/-- If nothing outside the cone tells two runs apart, nothing does after one more graph. -/
theorem SameOutside.pass (hg : g.WellFormed) (h : m.SameOutside n t₀ V₀ t₀' V₀') (hp : m.Passed n g t₀ V₀ t V)
    (hp' : m.Passed n g t₀' V₀' t' V') : m.SameOutside n t V t' V' := by
  have hjudge := hp.settled.judge_eq hg.before (fun x hx _ => hg.not_mem_own_outputs hx) hp'.settled
    (fun x hx houtside spec hin _ => h.values spec fun a ha y hy hout =>
      Cone.not_of_supplies houtside ⟨⟨a, ha, hy⟩, ⟨g, hp.mem, hx⟩, spec, hin, hout⟩)
    g.nodes [] (List.append_nil _).symm
  refine ⟨fun a ha x hx houtside => ?_, fun spec houtside => ?_⟩
  · by_cases hag : a = g
    · subst hag
      have hshows := hp.settled.ended x hx houtside
      rw [hjudge x hx houtside] at hshows
      exact hshows.unaffected (hp'.settled.ended x hx houtside)
    · have hbefore := h.nodes a ha x hx houtside
      exact ((hp.elsewhere a ha hag x hx).symm.trans hbefore).trans (hp'.elsewhere a ha hag x hx)
  · refine hp.settled.value_eq hp'.settled (fun _ => h.values spec houtside) fun x hx hout => ?_
    have hx' := houtside g hp.mem x hx hout
    exact ⟨hx', hjudge x hx hx'⟩

/-- Graphs of the model have been run one after another. -/
inductive Chain (m : Model) (n : Node) : List Graph → Tracker → Values → Tracker → Values → Prop
  | nil (t : Tracker) (V : Values) : Chain m n [] t V t V
  | cons {g : Graph} {rest : List Graph} {t₀ t t' : Tracker} {V₀ V V' : Values}
    (first : m.Passed n g t₀ V₀ t V) (next : Chain m n rest t V t' V') : Chain m n (g :: rest) t₀ V₀ t' V'

theorem Chain.sameOutside {gs : List Graph} (hgs : ∀ g ∈ m.graphs, g.WellFormed)
    (h : m.SameOutside n t₀ V₀ t₀' V₀') (hc : m.Chain n gs t₀ V₀ t V) (hc' : m.Chain n gs t₀' V₀' t' V') :
    m.SameOutside n t V t' V' := by
  induction hc generalizing t₀' V₀' with
  | nil =>
    cases hc'
    exact h
  | cons first next ih =>
    cases hc' with
    | cons first' next' => exact ih (h.pass (hgs _ first.mem) first first') next'

theorem Passed.ended (h : m.Passed n g t₀ V₀ t V) {a : Graph} (ha : a ∈ m.graphs) (hx : x ∈ a.nodes)
    (houtside : ¬ m.Cone n x) (hbefore : a = g ∨ t₀.HasEnded x.id) : t.HasEnded x.id := by
  by_cases hag : a = g
  · subst hag
    exact ⟨_, Verdict.isTerminal_state _, (h.settled.ended x hx houtside).state⟩
  · obtain ⟨st, hterminal, hst⟩ := hbefore.resolve_left hag
    exact ⟨st, hterminal, (h.elsewhere a ha hag x hx).state.trans hst⟩

/-- In graphs that have been run the nodes outside the cone have ended. -/
theorem Chain.ended {gs : List Graph} (hc : m.Chain n gs t₀ V₀ t V) (hg : g ∈ m.graphs) (hx : x ∈ g.nodes)
    (houtside : ¬ m.Cone n x) (hbefore : g ∈ gs ∨ t₀.HasEnded x.id) : t.HasEnded x.id := by
  induction hc with
  | nil => exact hbefore.resolve_left List.not_mem_nil
  | @cons a rest _ _ _ _ _ _ first next ih =>
    have hfirst := first.ended hg hx houtside
    rw [List.mem_cons] at hbefore
    apply ih
    rcases hbefore with (rfl | hrest) | hended
    · exact Or.inr (hfirst (Or.inl rfl))
    · exact Or.inl hrest
    · exact Or.inr (hfirst (Or.inr hended))

/-- Nodes of a built model are told apart by their ids. -/
theorem eq_of_id_eq (hbuild : b.build = .ok m) {g' : Graph} (hg : g ∈ m.graphs) (hg' : g' ∈ m.graphs)
    (hn : n ∈ g.nodes) (hx : x ∈ g'.nodes) (hid : n.id = x.id) : n = x := by
  obtain rfl : g = g' := by
    by_contra hne
    exact ((Blueprint.build_ok hbuild).2.separate.forall hg hg' hne n hn x hx).1 hid
  exact Graph.eq_of_id_eq (Blueprint.accepted_of_build hbuild hg).wellFormed.ids hn hx hid

end Model

/-! ### Runs -/

section Runs
variable {b : Blueprint} {m : Model} {g₀ : Graph} {n : Node}
  {call : CallContext → Target → Inputs → Reply} {w : RunSetting}

/-- All calculations but that of the node answer by the target and the inputs. -/
def Model.SteadyBut (m : Model) (n : Node) : Prop :=
  ∀ g ∈ m.graphs, ∀ x ∈ g.nodes, x.id ≠ n.id → x.calculation.Steady

/-- The recast graph has the nodes outside the cone as they are. -/
theorem Model.recast_outside (hbuild : b.build = .ok m) (hg₀ : g₀ ∈ m.graphs) (hn : n ∈ g₀.nodes) {g : Graph}
    (hg : g ∈ m.graphs) {x : Node} (hx : x ∈ g.nodes) (houtside : ¬ m.Cone n x) :
    x.id ≠ n.id ∧ x ∈ (g.recast n.id call).nodes := by
  have hne : x.id ≠ n.id := by
    intro hid
    rw [Model.eq_of_id_eq hbuild hg hg₀ hx hn hid] at houtside
    exact houtside .refl
  exact ⟨hne, List.mem_map.2 ⟨x, hx, Node.recast_of_ne hne⟩⟩

theorem GraphRun.Sound.passed (hbuild : b.build = .ok m) (hg₀ : g₀ ∈ m.graphs) (hn : n ∈ g₀.nodes)
    (hsteady : m.SteadyBut n) {g : Graph} (hg : g ∈ m.graphs) (hwf : (g.recast n.id call).WellFormed) {k : Nat}
    {t₀ : Tracker} {V₀ V : Values} {past : History} {r : GraphRun}
    (ho : GraphRun.Orderly (g.recast n.id call) k past r)
    (h : GraphRun.Sound w (g.recast n.id call) t₀ V₀ V past r) (hdone : r.isDone = true)
    (hgoing : r.state.cancelled = false) : m.Passed n g t₀ V₀ r.state.tracker V where
  mem := hg
  settled := by
    refine ⟨fun x hx houtside => ?_, fun y hy houtside x hx hs => ?_, fun spec hspec => ?_⟩
    · obtain ⟨hne, hx'⟩ := Model.recast_outside hbuild hg₀ hn hg hx houtside
      exact h.shows_judge ho hdone (hsteady g hg x hx hne) (h.mem_dispatched hwf ho hdone hgoing hx')
    · exact Model.Cone.not_of_supplies houtside ⟨⟨g, hg, hx⟩, ⟨g, hg, hy⟩, hs⟩
    · apply h.values
      simpa [Graph.recast] using hspec
  elsewhere := by
    intro a ha hne x hx
    have hapart := (Blueprint.build_ok hbuild).2.separate.forall hg ha (Ne.symm hne)
    apply h.elsewhere
    · simpa [Graph.recast] using fun y hy => (hapart y hy x hx).1
    · simpa [Graph.recast, Node.Apart] using fun y hy => (hapart y hy x hx).2

namespace Session

/-- A cycle that is not cancelled at the end has not been before. -/
theorem Traversed.going {gs : List Graph} {p p' : Progress} {runs : List Ran} (h : Traversed w gs p runs p')
    (hgoing : p'.state.cancelled = false) : p.state.cancelled = false := by
  cases h with
  | ended => exact hgoing
  | cut => exact hgoing
  | graph going => exact going

/-- A cycle that has come through the recast graphs undisturbed has run one after another. -/
theorem Traversed.chain (hbuild : b.build = .ok m) (hg₀ : g₀ ∈ m.graphs) (hn : n ∈ g₀.nodes)
    (hsteady : m.SteadyBut n) {gs : List Graph} (hmem : ∀ g ∈ gs, g ∈ m.graphs)
    (hgs : ∀ g ∈ gs, (g.recast n.id call).Accepted) (htame : ∀ g ∈ gs, GraphRun.Tame w (g.recast n.id call))
    (hseparate : (gs.map (·.recast n.id call)).Pairwise Graph.Separate) {p p' : Progress} {runs : List Ran}
    {V : Values} (hopen : p.state.caches.open? w.cache = some V)
    (hnew : ∀ g ∈ gs, ∀ x ∈ (g.recast n.id call).nodes, x.Untouched p.state.tracker V)
    (h : Traversed w (gs.map (·.recast n.id call)) p runs p') (hgoing : p'.state.cancelled = false) :
    ∃ V', p'.state.caches.open? w.cache = some V' ∧
      m.Chain n gs p.state.tracker V p'.state.tracker V' := by
  induction gs generalizing p V runs with
  | nil =>
    cases h
    exact ⟨V, hopen, .nil _ _⟩
  | cons g rest ih =>
    rw [List.map_cons] at h hseparate
    obtain ⟨hg, hmem⟩ := List.forall_mem_cons.1 hmem
    obtain ⟨haccepted, hgs⟩ := List.forall_mem_cons.1 hgs
    obtain ⟨htame, htames⟩ := List.forall_mem_cons.1 htame
    obtain ⟨hnew, hnews⟩ := List.forall_mem_cons.1 hnew
    obtain ⟨hapart, hseparate⟩ := List.pairwise_cons.1 hseparate
    have hwf := haccepted.wellFormed
    cases h with
    | cut cancelled =>
      rw [cancelled] at hgoing
      cases hgoing
    | graph going run done ok next =>
      have ho := run.orderly hwf
      obtain ⟨V₁, hsound⟩ := run.sound htame hwf hopen hnew
      have hlater := untouched_later hsound hapart (List.forall_mem_map.2 hnews)
      obtain ⟨V', hopen', hnext⟩ := ih hmem hgs htames hseparate hsound.opened
        (List.forall_mem_map.1 hlater) next
      have hundisturbed := GraphRun.going_of_closed (next.going hgoing)
      exact ⟨V', hopen', .cons (hsound.passed hbuild hg₀ hn hsteady hg hwf ho done hundisturbed) hnext⟩

/-! ### Cycles -/

variable {σ σ' : Type} {content : Requirement → Option Payload}

/-- A new cycle over the model. Its feed takes a snapshot that has the content, nobody has opened its cache,
its pool completes, and no calculation closes the cache or crashes where crashes are not contained. -/
structure Fresh (content : Requirement → Option Payload) (c : Context σ) (now : Int) (m : Model)
    (s : Session σ) : Prop where
  created : ∃ id view results, s.cycle = .create id view m results
  completes : c.pool.Completes fun _ => True
  tame : ∀ g ∈ m.graphs, ∀ x ∈ g.nodes, x.calculation.Tame c.config.containCrashes
  snapshot : ∃ token start, c.feed.snapshot s.world.feed now = (.ok token, start) ∧
    c.feed.Serves token start content ∧ s.world.caches.find? s.cycle.view token = none

theorem Fresh.prepares {c : Context σ} {now : Int} {s : Session σ} (h : Fresh content c now m s) :
    ∃ token start s₁ handle V seeded, s.prepare c now = (.ok (), s₁) ∧
      Prepared c.feed token start s s₁ handle V ∧ Sown content m.liveData.elements seeded V s₁.cycle.missing := by
  obtain ⟨world, cycle⟩ := s
  obtain ⟨⟨id, view, results, rfl⟩, -, -, token, start, hsnapshot, hserves, hcache⟩ := h
  obtain ⟨s, handle, V, hprepare, hp⟩ := prepare_ok (c := c) rfl hsnapshot hcache
  obtain ⟨s', handle', V', seeded, hprepare', -, hcache', -, hopen', hsown⟩ :=
    prepare_sown (c := c) rfl hsnapshot hserves (CacheStore.open?_acquire hcache)
  obtain rfl : s = s' := (Prod.mk.inj (hprepare.symm.trans hprepare')).2
  obtain rfl : handle = handle' := Option.some.inj (hp.cache.symm.trans hcache')
  obtain rfl : V = V' := Option.some.inj (hp.opened.symm.trans hopen')
  exact ⟨token, start, s, handle, V, seeded, hprepare, hp, hsown⟩

/-- A fresh cycle executes its plans, from values that the content alone determines, and if nobody has
cancelled it, it has run all graphs. -/
theorem Fresh.executes (hbuild : b.build = .ok m) (hg₀ : g₀ ∈ m.graphs) (hn : n ∈ g₀.nodes)
    (hsteady : m.SteadyBut n) {c : Context σ} {now : Int} {s : Session σ}
    (h : Fresh content c now (m.recast n.id call) s) :
    ∃ e handle V₀ seeded missing, andThen (s.prepare c now) (execute c) = (.ok (), e) ∧
      e.cycle.cache = some handle ∧ Sown content m.liveData.elements seeded V₀ missing ∧
      (e.cycle.cancelled = false → ∃ V, e.world.caches.open? handle = some V ∧
        m.Chain n m.schedule (.start m.nodeCount) V₀ e.cycle.tracker V) := by
  have hbuild' : (b.recast n.id.index call).build = .ok (m.recast n.id call) := by
    rw [Blueprint.build_recast, hbuild]
    rfl
  obtain ⟨token, start, s₁, handle, V₀, seeded, hprepare, hp, hsown⟩ := h.prepares
  obtain ⟨id, view, results, hcycle⟩ := h.created
  have hmodel : s.cycle.model = m.recast n.id call := by rw [hcycle, Cycle.create]
  have htracker : s.cycle.tracker = .start (m.recast n.id call).nodeCount := by rw [hcycle, Cycle.create]
  have hmem : ∀ g ∈ m.schedule, g.recast n.id call ∈ (m.recast n.id call).graphs :=
    fun g hg => List.mem_map_of_mem (Model.mem_schedule.1 hg)
  have hgs : ∀ g ∈ m.schedule, (g.recast n.id call).Accepted :=
    fun g hg => Blueprint.accepted_of_build hbuild' (hmem g hg)
  have htame : ∀ g ∈ m.schedule, GraphRun.Tame (s₁.setting c token handle) (g.recast n.id call) :=
    fun g hg => h.tame _ (hmem g hg)
  have hseparate := (Blueprint.build_ok hbuild').2.separate_schedule
  rw [Model.schedule_recast] at hseparate
  have hnew : ∀ g ∈ m.schedule, ∀ x ∈ (g.recast n.id call).nodes, x.Untouched s₁.cycle.tracker V₀ :=
    fun g hg => hp.untouched hbuild' hmodel htracker _ (hmem g hg)
  obtain ⟨runs, p, hrun, htraversed⟩ := runGraphs_traversed (w := s₁.setting c token handle) (p := s₁.progress)
    h.completes (List.forall_mem_map.2 hgs) (List.forall_mem_map.2 htame) hseparate hp.opened
    (List.forall_mem_map.2 hnew)
  rw [Model.liveData_recast] at hsown
  refine ⟨s₁.started.absorb p, handle, V₀, seeded, s₁.cycle.missing, ?_, hp.cache, hsown, fun hgoing => ?_⟩
  · simp only [hprepare, andThen]
    rw [execute_eq hp.stage hp.snapshot hp.cache, hp.model, hmodel, Model.schedule_recast, hrun]
  · rw [← Model.nodeCount_recast, ← htracker, ← hp.tracker]
    exact htraversed.chain hbuild hg₀ hn hsteady (fun _ => Model.mem_schedule.1) hgs htame hseparate hp.opened
      hnew hgoing

/-- Two cycles over a built model and the same content, in which one node answers in two ways: values, right
or wrong, all of them or some, a fault or a crash. Both execute their plans, and unless somebody cancels one of
them, every node outside the cone of that node ends, and it has in both the same state, the same reason if it
has failed and the same values, whatever the turns of the jobs. -/
theorem outcome_confined_to_cone (hbuild : b.build = .ok m) (hg₀ : g₀ ∈ m.graphs) (hn : n ∈ g₀.nodes)
    (hsteady : m.SteadyBut n) {call' : CallContext → Target → Inputs → Reply} {c : Context σ} {c' : Context σ'}
    {now now' : Int} {s : Session σ} {s' : Session σ'} (h : Fresh content c now (m.recast n.id call) s)
    (h' : Fresh content c' now' (m.recast n.id call') s') :
    ∃ e e' handle handle', andThen (s.prepare c now) (execute c) = (.ok (), e) ∧
      andThen (s'.prepare c' now') (execute c') = (.ok (), e') ∧
      e.cycle.cache = some handle ∧ e'.cycle.cache = some handle' ∧
      (e.cycle.cancelled = false → e'.cycle.cancelled = false →
        ∃ V V', e.world.caches.open? handle = some V ∧ e'.world.caches.open? handle' = some V' ∧
          ∀ g ∈ m.graphs, ∀ x ∈ g.nodes, ¬ m.Cone n x →
            e.cycle.tracker.HasEnded x.id ∧ x.Unaffected e.cycle.tracker V e'.cycle.tracker V') := by
  obtain ⟨e, handle, V₀, _, _, hrun, hcache, hsown, hchain⟩ := h.executes hbuild hg₀ hn hsteady
  obtain ⟨e', handle', V₀', _, _, hrun', hcache', hsown', hchain'⟩ := h'.executes hbuild hg₀ hn hsteady
  refine ⟨e, e', handle, handle', hrun, hrun', hcache, hcache', fun hgoing hgoing' => ?_⟩
  obtain ⟨V, hopen, hchain⟩ := hchain hgoing
  obtain ⟨V', hopen', hchain'⟩ := hchain' hgoing'
  obtain rfl : V₀ = V₀' := hsown.unique hsown'
  have hwf : ∀ g ∈ m.graphs, g.WellFormed := fun g hg => (Blueprint.accepted_of_build hbuild hg).wellFormed
  have hsame := hchain.sameOutside hwf (.refl m n _ _) hchain'
  refine ⟨V, V', hopen, hopen', fun g hg x hx houtside => ⟨?_, hsame.nodes g hg x hx houtside⟩⟩
  exact hchain.ended hg hx houtside (Or.inl (Model.mem_schedule.2 hg))

/-! Two branches over one value. In the first a node reads what another produces. -/

/-- Reads one value and declares one, and answers the declared value. -/
def echo (input output : String) : Calculation where
  name := "echo"
  requirements t := [{ name := input, target := t }]
  results _ := [sampleValue output]
  call _ _ _ := ⟨.values [⟨sampleValue output, .text output⟩], []⟩

theorem echo_steady (input output : String) : (echo input output).Steady :=
  ⟨fun _ _ _ _ => rfl, fun _ _ _ => by simp [echo]⟩

def branches : Blueprint where
  registrations := [⟨.primitive "EUR", echo "Rate" "Curve"⟩, ⟨.primitive "EUR", echo "Curve" "Price"⟩,
    ⟨.primitive "EUR", echo "Rate" "Spread"⟩]
  liveData := [{ name := "Rate", target := .primitive "EUR" }]

def branch (id : Nat) (input output : String) : Node :=
  .make ⟨id⟩ (.primitive "EUR") (echo input output) [sampleValue input] [sampleValue output]

/-- A run in which the first node answers so. -/
def answeringSo (m : Model) (outcome : Outcome) : Session MemoryFeed where
  world := { feed := sampleFeed }
  cycle := .create ⟨1⟩ "view" (m.recast ⟨0⟩ fun _ _ _ => ⟨outcome, []⟩) (.empty "view")

theorem branches_steady {m : Model} (hm : branches.build = .ok m) {g : Graph} (hg : g ∈ m.graphs) {x : Node}
    (hx : x ∈ g.nodes) : x.calculation.Steady := by
  obtain ⟨r, hr⟩ := Blueprint.exists_stem hm hg hx
  rw [hr.calculation]
  have hmem := hr.mem
  simp only [branches, List.mem_cons, List.not_mem_nil, or_false] at hmem
  rcases hmem with rfl | rfl | rfl
  all_goals exact echo_steady _ _

theorem answeringSo_fresh {m : Model} (hm : branches.build = .ok m) (outcome : Outcome) :
    Fresh sampleFeed.current.lookup { config := {}, feed := MemoryFeed.source } 7
      (m.recast ⟨0⟩ fun _ _ _ => ⟨outcome, []⟩) (answeringSo m outcome) where
  created := ⟨_, _, _, rfl⟩
  completes := WorkerPool.single_completes.mono fun _ _ => trivial
  tame := by
    intro g hg x hx
    obtain ⟨g', hg', rfl⟩ := List.mem_map.1 hg
    obtain ⟨x', hx', rfl⟩ := List.mem_map.1 hx
    refine ⟨fun _ _ _ => ?_, Or.inl rfl⟩
    unfold Node.recast
    split_ifs
    · simp [Calculation.recast]
    · exact (branches_steady hm hg' hx').keeps _ _ _
  snapshot := ⟨_, _, rfl, serves_memory sampleFeed 7, rfl⟩

theorem spread_outside_cone :
    ∃ m g e e', branches.build = .ok m ∧ g ∈ m.graphs ∧ branch 0 "Rate" "Curve" ∈ g.nodes ∧
      branch 2 "Rate" "Spread" ∈ g.nodes ∧ ¬ m.Cone (branch 0 "Rate" "Curve") (branch 2 "Rate" "Spread") ∧
      andThen ((answeringSo m (.fault (.calculation "no curve"))).prepare
        { config := {}, feed := MemoryFeed.source } 7) (execute { config := {}, feed := MemoryFeed.source }) =
          (.ok (), e) ∧
      andThen ((answeringSo m (.values [⟨sampleValue "Curve", .text "1"⟩])).prepare
        { config := {}, feed := MemoryFeed.source } 7) (execute { config := {}, feed := MemoryFeed.source }) =
          (.ok (), e') ∧
      e.cycle.tracker.states = [.failed, .failed, .executed] ∧
      e'.cycle.tracker.states = [.executed, .executed, .executed] ∧
      ∃ handle handle' V V', e.world.caches.open? handle = some V ∧ e'.world.caches.open? handle' = some V' ∧
        (branch 2 "Rate" "Spread").Unaffected e.cycle.tracker V e'.cycle.tracker V' := by
  obtain ⟨m, hm⟩ : ∃ m, branches.build = .ok m := ⟨_, rfl⟩
  obtain ⟨g, hg, hcurve, hspread⟩ : ∃ g ∈ m.graphs, branch 0 "Rate" "Curve" ∈ g.nodes ∧
      branch 2 "Rate" "Spread" ∈ g.nodes := by
    cases hm
    exact ⟨_, List.mem_cons_self, .tail _ (.head _), .head _⟩
  have hsteady : m.SteadyBut (branch 0 "Rate" "Curve") := fun g hg x hx _ => branches_steady hm hg hx
  -- nobody produces what the node reads
  have houtside : ¬ m.Cone (branch 0 "Rate" "Curve") (branch 2 "Rate" "Spread") := by
    intro hcone
    rcases hcone.cases_tail with he | ⟨a, -, ⟨g', hg', ha⟩, -, spec, hin, hout⟩
    · exact absurd (congrArg (·.id.index) he) (by decide)
    · obtain ⟨r, hr⟩ := Blueprint.exists_stem hm hg' ha
      have hmem := hr.mem
      have hresult := hr.outputs spec hout
      rw [List.mem_singleton.1 hin] at hresult
      simp only [branches, List.mem_cons, List.not_mem_nil, or_false] at hmem
      rcases hmem with rfl | rfl | rfl
      all_goals exact absurd hresult (by decide)
  obtain ⟨e, e', handle, handle', hrun, hrun', -, -, hsame⟩ :=
    outcome_confined_to_cone hm hg hcurve hsteady (answeringSo_fresh hm (.fault (.calculation "no curve")))
      (answeringSo_fresh hm (.values [⟨sampleValue "Curve", .text "1"⟩]))
  obtain ⟨hstates, hgoing⟩ :
      e.cycle.tracker.states = [.failed, .failed, .executed] ∧ e.cycle.cancelled = false := by
    cases hm
    cases hrun
    exact ⟨rfl, rfl⟩
  obtain ⟨hstates', hgoing'⟩ :
      e'.cycle.tracker.states = [.executed, .executed, .executed] ∧ e'.cycle.cancelled = false := by
    cases hm
    cases hrun'
    exact ⟨rfl, rfl⟩
  obtain ⟨V, V', hopen, hopen', hnodes⟩ := hsame hgoing hgoing'
  exact ⟨m, g, e, e', hm, hg, hcurve, hspread, houtside, hrun, hrun', hstates, hstates', handle, handle', V, V',
    hopen, hopen', (hnodes g hg _ hspread houtside).2⟩

end Session

end Runs

end CalcCycle
