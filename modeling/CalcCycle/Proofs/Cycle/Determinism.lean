import CalcCycle.Proofs.Cycle.Completion
import CalcCycle.Proofs.Execution.Reference

/-! A cycle whose calculations are functions of their inputs has one outcome, whatever the order in
which jobs advance, report and are taken in: that of the sequential reference. -/

namespace CalcCycle

/-- The outcome of a call depends on the target and the inputs alone, and the call does nothing else. -/
structure Calculation.Pure (f : Calculation) : Prop where
  outcome : ∀ c c' t i, (f.call c t i).outcome = (f.call c' t i).outcome
  quiet : ∀ c t i, (f.call c t i).interrupts = []

/-- The outcome of a call depends on the target and the inputs alone. The call may cancel the cycle, but
it does not close the running cache. -/
structure Calculation.Steady (f : Calculation) : Prop where
  outcome : ∀ c c' t i, (f.call c t i).outcome = (f.call c' t i).outcome
  keeps : ∀ c t i, Interrupt.releaseCache ∉ (f.call c t i).interrupts

theorem Calculation.Pure.steady {f : Calculation} (h : f.Pure) : f.Steady :=
  ⟨h.outcome, fun c t i => by simp [h.quiet]⟩

/-- The answer of a calculation whose outcome does not depend on the run. -/
def Node.pureAnswer (n : Node) (inputs : Inputs) : Outcome :=
  (n.calculation.call default n.target inputs).outcome

/-- Where the outcome of a call does not depend on the run, a node ends in one way. -/
theorem Node.MayEnd.eq_judge {n : Node} {w : RunSetting} {V : Values} {v : Verdict}
    (houtcome : ∀ c c' t i, (n.calculation.call c t i).outcome = (n.calculation.call c' t i).outcome)
    (h : n.MayEnd w V v) : v = n.judge V n.pureAnswer := by
  obtain ⟨job, rfl⟩ := h
  have hanswer : n.answer w job = n.pureAnswer := funext fun i => houtcome _ _ _ _
  rw [hanswer]

/-- No event makes the listener cancel the cycle. -/
def Listener.NeverCancels (l : Listener) : Prop := ∀ e, (l.react e).cancels = false

namespace Job
variable {w : RunSetting} {s s' : RunState} {j : Job} {p : Phase}

theorem Action.not_cancelled (hlistener : w.listener.NeverCancels) (hpure : j.node.calculation.Pure)
    (h : Action w s j s' p) (hs : s.cancelled = false) : s'.cancelled = false := by
  cases h with
  | announce | close => simp [RunState.notify, hs, hlistener _]
  | call _ answer =>
    rw [← answer, hpure.quiet]
    exact hs
  | _ => exact hs

end Job

namespace GraphRun
variable {w : RunSetting} {g : Graph} {k : Nat} {past : History} {r : GraphRun} {s : RunState}

theorem Step.not_cancelled {past' : History} {r' : GraphRun} {m : Move} (hlistener : w.listener.NeverCancels)
    (hpure : ∀ n ∈ g.nodes, n.calculation.Pure) (ho : Orderly g k past r) (hm : m ≠ .cancel)
    (hr : r.state.cancelled = false) (h : Step w past r m past' r') : r'.state.cancelled = false := by
  cases h with
  | @work front j back s p jobs action =>
    have hj : j ∈ r.jobs ++ past.reported := by simp [jobs]
    exact action.not_cancelled hlistener (hpure _ (ho.dispatched_mem (ho.node_mem hj)).1) hr
  | @receive c rest =>
    rw [(takeIn_keeps { r with reports := rest } c).1]
    exact hr
  | cancel => exact absurd rfl hm
  | _ => exact hr

/-- Where nobody cancels, the cycle is not cancelled. -/
theorem Reached.not_cancelled (hlistener : w.listener.NeverCancels) (hg : g.WellFormed)
    (hpure : ∀ n ∈ g.nodes, n.calculation.Pure) (hs : s.cancelled = false)
    (h : Reached (· ≠ .cancel) w (GraphRun.start w g s k) past r) : r.state.cancelled = false := by
  have hstart : (GraphRun.start w g s k).state.cancelled = false := by
    simp [GraphRun.start, RunState.notify, hs, hlistener _]
  exact h.invariant_along (P := fun _ r => r.state.cancelled = false) hstart fun before hr hm hstep =>
    hstep.not_cancelled hlistener hpure (before.orderly hg) hm hr

theorem Tame.of_steady (hcontain : w.containCrashes = true) (hsteady : ∀ n ∈ g.nodes, n.calculation.Steady) :
    Tame w g :=
  fun n hn => ⟨(hsteady n hn).keeps, Or.inl hcontain⟩

/-- A node that was dispatched has ended as it is judged. -/
theorem Sound.shows_judge {V₀ V : Values} {t₀ : Tracker} (ho : Orderly g k past r)
    (h : Sound w g t₀ V₀ V past r) (hdone : r.isDone = true) {n : Node} (hsteady : n.calculation.Steady)
    (hn : n ∈ past.dispatched.map (·.node)) :
    n.Shows r.state.tracker V (n.judge V n.pureAnswer).state (n.judge V n.pureAnswer).reason?
      (n.judge V n.pureAnswer).value? := by
  obtain ⟨v, hend, hshows⟩ := h.ended ho hdone hn
  rw [← hend.eq_judge hsteady.outcome]
  exact hshows

/-- In a run that is over, undisturbed, every node was dispatched. -/
theorem Sound.mem_dispatched {V₀ V : Values} {t₀ : Tracker} (hg : g.WellFormed) (ho : Orderly g k past r)
    (h : Sound w g t₀ V₀ V past r) (hdone : r.isDone = true) (hgoing : r.state.cancelled = false) {n : Node}
    (hn : n ∈ g.nodes) : n ∈ past.dispatched.map (·.node) := by
  have hstopped : r.isStopped = false := by simp [isStopped, hgoing, h.no_fatal ho]
  exact (ho.dispatched_perm hg hdone hstopped).mem_iff.2 hn

/-- A run that is over, undisturbed, has settled its graph. -/
theorem Sound.settles {V₀ V : Values} {t₀ : Tracker} (hg : g.WellFormed)
    (hsteady : ∀ n ∈ g.nodes, n.calculation.Steady) (ho : Orderly g k past r)
    (h : Sound w g t₀ V₀ V past r) (hdone : r.isDone = true) (hgoing : r.state.cancelled = false) :
    Settles Node.pureAnswer g.nodes t₀ V₀ r.state.tracker V :=
  ⟨fun n hn => h.shows_judge ho hdone (hsteady n hn) (h.mem_dispatched hg ho hdone hgoing hn), h.nodes, h.values⟩

end GraphRun

/-- The tracker and the cache are as in the ledger. -/
structure Ledger.Matches (l : Ledger) (t : Tracker) (V : Values) : Prop where
  states : t.states = l.states
  reasons : t.reasons = l.reasons
  values : V = l.values

theorem Ledger.matches_of_same {l : Ledger} {t : Tracker} {V : Values}
    (hids : ∀ id, t.state? id = l.tracker.state? id ∧ t.reason? id = l.tracker.reason? id)
    (hvalues : ∀ spec, V.get? spec = l.values.get? spec) : l.Matches t V := by
  refine ⟨List.ext_getElem? fun i => (hids ⟨i⟩).1, SortedMap.ext_get? fun id => (hids id).2, ?_⟩
  exact SortedMap.ext_get? hvalues

theorem Ledger.Matches.same {l : Ledger} {t : Tracker} {V : Values} (h : l.Matches t V) (id : NodeId) :
    l.tracker.state? id = t.state? id ∧ l.tracker.reason? id = t.reason? id := by
  unfold Tracker.state? Tracker.reason?
  rw [h.states, h.reasons]
  exact ⟨rfl, rfl⟩

theorem Ledger.Matches.unaffected {l : Ledger} {t : Tracker} {V : Values} (h : l.Matches t V) (n : Node) :
    n.Unaffected t V l.tracker l.values := by
  obtain ⟨hstate, hreason⟩ := h.same n.id
  exact ⟨hstate, hreason, fun spec _ => by rw [h.values]⟩

theorem Node.Untouched.of_matches {l : Ledger} {t : Tracker} {V : Values} {n : Node} (hl : l.Matches t V)
    (h : n.Untouched t V) : n.Untouched l.tracker l.values :=
  h.frame (hl.unaffected n)

/-- The reference settles a graph that nobody has begun. -/
theorem Ledger.Matches.settles {l : Ledger} {t : Tracker} {V : Values} (hl : l.Matches t V) {g : Graph}
    (hg : g.WellFormed) (hnew : ∀ n ∈ g.nodes, n.Untouched t V) :
    Settles Node.pureAnswer g.nodes t V (g.nodes.foldl (visit Node.pureAnswer) l).tracker
      (g.nodes.foldl (visit Node.pureAnswer) l).values := by
  have hreference := foldl_visit_settles Node.pureAnswer hg.before
    (fun n hn _ => hg.not_mem_own_outputs hn) fun n hn => (hnew n hn).of_matches hl
  refine ⟨hreference.ended, ?_, ?_⟩
  · intro id hid
    obtain ⟨hstate, hreason⟩ := hreference.states id hid
    exact ⟨hstate.trans (hl.same id).1, hreason.trans (hl.same id).2⟩
  · intro spec hspec
    rw [hreference.values spec hspec, hl.values]

/-- A run that is over, undisturbed, leaves what the reference leaves. -/
theorem GraphRun.Sound.matches {w : RunSetting} {g : Graph} {k : Nat} {t₀ : Tracker} {V₀ V : Values}
    {past : History} {r : GraphRun} {l : Ledger} (hg : g.WellFormed)
    (hsteady : ∀ n ∈ g.nodes, n.calculation.Steady) (ho : Orderly g k past r)
    (h : Sound w g t₀ V₀ V past r) (hdone : r.isDone = true) (hgoing : r.state.cancelled = false)
    (hnew : ∀ n ∈ g.nodes, n.Untouched t₀ V₀) (hl : l.Matches t₀ V₀) :
    (g.nodes.foldl (Ledger.visit Node.pureAnswer) l).Matches r.state.tracker V := by
  obtain ⟨hids, hvalues⟩ := (h.settles hg hsteady ho hdone hgoing).unique hg.before
    (fun n hn _ => hg.not_mem_own_outputs hn) (hl.settles hg hnew)
  exact Ledger.matches_of_same hids hvalues

namespace Session

variable {pool : WorkerPool} {w : RunSetting}

/-- A graph that is run leaves what the reference leaves. -/
theorem conduct_matches (hpool : pool.Completes (· ≠ .cancel)) (hlistener : w.listener.NeverCancels)
    (hcontain : w.containCrashes = true) {g : Graph} {s : RunState} {V : Values} {l : Ledger} (k : Nat)
    (hg : g.Accepted) (hpure : ∀ n ∈ g.nodes, n.calculation.Pure) (hgoing : s.cancelled = false)
    (hopen : s.caches.open? w.cache = some V) (hnew : ∀ n ∈ g.nodes, n.Untouched s.tracker V)
    (hl : l.Matches s.tracker V) :
    ∃ report s' k' V', GraphRun.conduct pool w g s k = (.ok report, s', k') ∧ s'.cancelled = false ∧
      s'.caches.open? w.cache = some V' ∧
      (g.nodes.foldl (Ledger.visit Node.pureAnswer) l).Matches s'.tracker V' ∧
      ∀ n : Node, (∀ a ∈ g.nodes, a.id ≠ n.id) → (∀ a ∈ g.nodes, a.Apart n) →
        n.Unaffected s.tracker V s'.tracker V' := by
  have hwf := hg.wellFormed
  have hsteady : ∀ n ∈ g.nodes, n.calculation.Steady := fun n hn => (hpure n hn).steady
  obtain ⟨past, r, V', hrun, hdone, hsound, hconduct⟩ :=
    conduct_sound hpool k hg (.of_steady hcontain hsteady) hopen hnew
  have hcancelled := hrun.not_cancelled hlistener hwf hpure hgoing
  have hmatches := hsound.matches hwf hsteady (hrun.orderly hwf) hdone hcancelled hnew hl
  refine ⟨_, _, _, V', hconduct, ?_, hsound.opened, hmatches, ?_⟩
  · simp [GraphRun.closed, RunState.notify, hcancelled, hlistener _]
  · exact fun n hid hout => hsound.elsewhere hid hout

theorem runGraphs_matches (hpool : pool.Completes (· ≠ .cancel)) (hlistener : w.listener.NeverCancels)
    (hcontain : w.containCrashes = true) {gs : List Graph} (hgs : ∀ g ∈ gs, g.Accepted)
    (hpure : ∀ g ∈ gs, ∀ n ∈ g.nodes, n.calculation.Pure) (hseparate : gs.Pairwise Graph.Separate)
    {p : Progress} {V : Values} {l : Ledger} (hgoing : p.state.cancelled = false)
    (hopen : p.state.caches.open? w.cache = some V)
    (hnew : ∀ g ∈ gs, ∀ n ∈ g.nodes, n.Untouched p.state.tracker V) (hl : l.Matches p.state.tracker V) :
    ∃ p' V', runGraphs pool w gs p = (.ok (), p') ∧ p'.state.caches.open? w.cache = some V' ∧
      (Ledger.visitAll Node.pureAnswer gs l).Matches p'.state.tracker V' := by
  induction gs generalizing p V l with
  | nil => exact ⟨p, V, rfl, hopen, hl⟩
  | cons g rest ih =>
    obtain ⟨hg, hrest⟩ := List.forall_mem_cons.1 hgs
    obtain ⟨hpure, hpures⟩ := List.forall_mem_cons.1 hpure
    obtain ⟨hnew, hnews⟩ := List.forall_mem_cons.1 hnew
    obtain ⟨hapart, hseparate⟩ := List.pairwise_cons.1 hseparate
    obtain ⟨report, s', k', V', hconduct, hgoing', hopen', hl', helsewhere⟩ :=
      conduct_matches hpool hlistener hcontain p.lastJob hg hpure hgoing hopen hnew hl
    rw [runGraphs, if_neg (by simp [hgoing]), hconduct, Ledger.visitAll_cons]
    refine ih hrest hpures hseparate hgoing' hopen' ?_ hl'
    intro a ha n hn
    refine (hnews a ha n hn).frame (helsewhere n ?_ ?_)
    · exact fun b hb => (hapart a ha b hb n hn).1
    · exact fun b hb => (hapart a ha b hb n hn).2

variable {σ : Type} {c : Context σ} {s : Session σ} {token : Token} {handle : CacheHandle} {V : Values}

/-- A cycle that has its inputs and has not begun any node. -/
structure Ready (s : Session σ) (handle : CacheHandle) (V : Values) : Prop where
  stage : s.cycle.stage = .inputsPrepared
  snapshot : s.cycle.snapshot.isSome = true
  cache : s.cycle.cache = some handle
  tracker : s.cycle.tracker = .start s.cycle.model.nodeCount
  going : s.cycle.cancelled = false
  opened : s.world.caches.open? handle = some V

/-- Executing the plans leaves the states, the reasons and the values that the sequential reference
leaves, whatever the turns of the jobs. The reference takes the graphs by the kinds of their targets, and those
of one kind as they were given. -/
theorem execute_matches_reference {graphs : List Graph} (hmodel : Model.ofGraphs graphs = .ok s.cycle.model)
    (hgs : ∀ g ∈ graphs, g.Accepted) (hpool : c.pool.Completes (· ≠ .cancel))
    (hlistener : c.listener.NeverCancels) (hcontain : c.config.containCrashes = true)
    (hpure : ∀ g ∈ graphs, ∀ n ∈ g.nodes, n.calculation.Pure) (hs : s.Ready handle V)
    (hclear : ∀ g ∈ graphs, ∀ spec ∈ g.outputs, V.get? spec = none) :
    ∃ s' V', s.execute c = (.ok (), s') ∧ s'.world.caches.open? handle = some V' ∧
      (Ledger.visitAll Node.pureAnswer
        (TargetKind.executionOrder.flatMap fun k => graphs.filter (·.target.kind == k))
        (.start s.cycle.model.nodeCount V)).Matches s'.cycle.tracker V' := by
  obtain ⟨rfl, hwf⟩ := Model.ofGraphs_ok hmodel
  obtain ⟨token, hsnapshot⟩ := Option.isSome_iff_exists.1 hs.snapshot
  have hmem : ∀ g ∈ s.cycle.model.schedule, g ∈ s.cycle.model.graphs := fun g hg => Model.mem_schedule.1 hg
  have hnew : ∀ g ∈ s.cycle.model.schedule, ∀ n ∈ g.nodes, n.Untouched s.cycle.tracker V := by
    intro g hg n hn
    rw [hs.tracker]
    apply Node.untouched_start (hwf.bound g (hmem g hg) n hn)
    intro spec hspec
    exact hclear g (hmem g hg) spec (Graph.mem_outputs.2 ⟨n, hn, hspec⟩)
  have hl : (Ledger.start s.cycle.model.nodeCount V).Matches s.cycle.tracker V := by
    rw [hs.tracker]
    exact ⟨rfl, rfl, rfl⟩
  obtain ⟨p, V', hrun, hopen, hmatches⟩ := runGraphs_matches (w := s.setting c token handle)
    (p := s.progress) hpool hlistener hcontain (fun g hg => hgs g (hmem g hg))
    (fun g hg => hpure g (hmem g hg)) hwf.separate_schedule hs.going hs.opened hnew hl
  -- The cycle runs the graphs in the order of the reference.
  have horder : s.cycle.model.schedule =
      TargetKind.executionOrder.flatMap fun k => s.cycle.model.graphs.filter (·.target.kind == k) := rfl
  rw [horder] at hmatches
  refine ⟨s.started.absorb p, V', ?_, hopen, hmatches⟩
  rw [execute_eq hs.stage hsnapshot hs.cache, hrun]

/-- The preparation of a new cycle leaves it ready. -/
theorem Prepared.ready {f : Feed σ} {start : σ} {s' : Session σ}
    (h : Prepared f token start s s' handle V) (hnew : s.cycle.tracker = .start s.cycle.model.nodeCount)
    (hgoing : s.cycle.cancelled = false) : s'.Ready handle V where
  stage := h.stage
  snapshot := by simp [h.snapshot]
  cache := h.cache
  tracker := by rw [h.tracker, h.model, hnew]
  going := h.cancelled.trans hgoing
  opened := h.opened

theorem constantly_pure (outputs : List String) : (constantly outputs).Pure :=
  ⟨fun _ _ _ _ => rfl, fun _ _ _ => rfl⟩

def diamondSession (m : Model) : Session MemoryFeed where
  world := { feed := sampleFeed }
  cycle := .create ⟨1⟩ "view" m (.empty "view")

theorem diamond_matches_reference :
    ∃ g m, Graph.ofNodes (.primitive "EUR") diamond [] = .ok g ∧ Model.ofGraphs [g] = .ok m ∧
      ∃ s s' V V', ((diamondSession m).prepare { config := {}, feed := MemoryFeed.source } 7) = (.ok (), s) ∧
        s.execute { config := {}, feed := MemoryFeed.source } = (.ok (), s') ∧
        (Ledger.visitAll Node.pureAnswer
          (TargetKind.executionOrder.flatMap fun k => [g].filter (·.target.kind == k))
          (.start m.nodeCount V)).Matches s'.cycle.tracker V' := by
  obtain ⟨g, hg⟩ : ∃ g, Graph.ofNodes (.primitive "EUR") diamond [] = .ok g := ⟨_, rfl⟩
  obtain ⟨m, hm⟩ : ∃ m, Model.ofGraphs [g] = .ok m := by
    cases hg
    exact ⟨_, rfl⟩
  obtain ⟨s, handle, V, hprepare, hp⟩ := prepare_ok (s := diamondSession m)
    (c := { config := {}, feed := MemoryFeed.source }) rfl rfl rfl
  have hmodel : s.cycle.model = m := hp.model
  have hone : ∀ a ∈ [g], a = g := fun a ha => List.mem_singleton.1 ha
  have hpure : ∀ a ∈ [g], ∀ n ∈ a.nodes, n.calculation.Pure := by
    intro a ha n hn
    rw [hone a ha] at hn
    have hmem := Graph.mem_of_ofNodes hg hn
    simp only [diamond, List.mem_cons, List.not_mem_nil, or_false] at hmem
    rcases hmem with rfl | rfl | rfl | rfl
    all_goals exact constantly_pure _
  -- The model asks for no live data, so the cache is empty.
  have hclear : ∀ spec, V.get? spec = none := by
    intro spec
    by_contra hsome
    obtain ⟨p, hv⟩ := Option.ne_none_iff_exists'.1 hsome
    obtain ⟨d, hd, -⟩ := hp.answered spec p hv
    obtain ⟨a, ha, hda⟩ := Model.mem_liveData.1 hd
    rw [hone a ((Model.ofGraphs_ok hm).1 ▸ ha)] at hda
    cases hg
    cases hda
  obtain ⟨s', V', hexecute, -, hmatches⟩ := execute_matches_reference
    (c := { config := {}, feed := MemoryFeed.source }) (hmodel.symm ▸ hm)
    (fun a ha => hone a ha ▸ ⟨_, _, _, hg⟩) WorkerPool.single_completes (fun _ => rfl) rfl hpure
    (hp.ready rfl rfl) (fun _ _ spec _ => hclear spec)
  rw [hmodel] at hmatches
  exact ⟨g, m, hg, hm, s, s', V, V', hprepare, hexecute, hmatches⟩

end Session

end CalcCycle
