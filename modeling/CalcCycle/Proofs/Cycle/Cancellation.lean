import CalcCycle.Proofs.Cycle.Determinism
import CalcCycle.Proofs.Cycle.PartitionOrder

/-! A cycle that is cancelled, at whatever moment, has done a part of what it would have done undisturbed
and nothing else: no job is dispatched and no graph is begun any more, the jobs on their way come to
their end as they would have, and the nodes that have been left out look as if there had been no cycle. -/

namespace CalcCycle

theorem Verdict.isTerminal_state (v : Verdict) : v.state.isTerminal = true := by
  cases v <;> rfl

/-- A graph that a cycle has run, with the jobs that were dispatched for it. -/
structure Ran where
  graph : Graph
  jobs : List Job

/-- The report on a graph that was run: its jobs have executed or failed, and all other nodes count as
not dispatched. -/
structure Ran.ReportedAs (a : Ran) (report : GraphReport) : Prop where
  target : report.target = a.graph.target
  nodeCount : report.nodeCount = a.graph.nodes.length
  resolved : report.executed + report.failed = a.jobs.length
  total : report.executed + report.failed + report.notDispatched = report.nodeCount

namespace GraphRun
variable {w : RunSetting} {g : Graph} {k : Nat} {past : History} {r : GraphRun} {allowed : Move → Prop}

/-- Once the cycle is cancelled it stays so, and nothing is dispatched any more. -/
theorem Reached.after_cancel {r₀ : GraphRun} (hcancelled : r₀.state.cancelled = true)
    (h : Reached allowed w r₀ past r) : r.state.cancelled = true ∧ past.dispatched = [] := by
  apply h.invariant (P := fun past r => r.state.cancelled = true ∧ past.dispatched = []) ⟨hcancelled, rfl⟩
  rintro past r m past' r' ⟨hr, hnone⟩ - hstep
  cases hstep with
  | dispatch _ going => simp [isStopped, hr] at going
  | work _ action => exact ⟨action.cancelled hr, hnone⟩
  | @receive c rest =>
    rw [(takeIn_keeps { r with reports := rest } c).1]
    exact ⟨hr, hnone⟩
  | cancel => exact ⟨rfl, hnone⟩
  | _ => exact ⟨hr, hnone⟩

/-- Among the nodes that were dispatched are the producers of what they read. -/
theorem Orderly.producer_dispatched (hg : g.WellFormed) (h : Orderly g k past r) {n a : Node}
    (hn : n ∈ past.dispatched.map (·.node)) (ha : a ∈ g.nodes) (hreads : ∃ spec ∈ n.inputs, spec ∈ a.outputs) :
    a ∈ past.dispatched.map (·.node) := by
  obtain ⟨spec, hin, hout⟩ := hreads
  obtain ⟨j, hj, rfl⟩ := List.mem_map.1 (h.placed.mem_iff.2 hn)
  obtain ⟨i, hi, hid⟩ := List.mem_map.1 (h.producer_reported hg hj ha hin hout)
  have hnode := h.node_mem (List.mem_append_right _ hi)
  rw [← Graph.eq_of_id_eq hg.ids (h.dispatched_mem hnode).1 ha hid]
  exact hnode

namespace Sound
variable {t₀ : Tracker} {V₀ V : Values} {l : Ledger}

/-- In a run that is over, the nodes that were dispatched have ended as in the reference. What they read
comes from nodes that were dispatched, so it does not matter which nodes were left out. -/
theorem agrees (hg : g.WellFormed) (hsteady : ∀ n ∈ g.nodes, n.calculation.Steady)
    (ho : Orderly g k past r) (h : Sound w g t₀ V₀ V past r) (hdone : r.isDone = true)
    (hnew : ∀ n ∈ g.nodes, n.Untouched t₀ V₀) (hl : l.Matches t₀ V₀) {n : Node}
    (hn : n ∈ past.dispatched.map (·.node)) :
    r.state.tracker.HasEnded n.id ∧
      n.Unaffected (g.nodes.foldl (Ledger.visit Node.pureAnswer) l).tracker
        (g.nodes.foldl (Ledger.visit Node.pureAnswer) l).values r.state.tracker V := by
  have hreference := hl.settles hg hnew
  have hsome : SettlesSome Node.pureAnswer g.nodes V₀ (· ∈ past.dispatched.map (·.node))
      r.state.tracker V := by
    refine ⟨?_, fun m _ hm a ha => ho.producer_dispatched hg hm ha, h.values⟩
    exact fun m hm hdispatched => h.shows_judge ho hdone (hsteady m hm) hdispatched
  have hmem := (ho.dispatched_mem hn).1
  have hshows := hsome.ended n hmem hn
  refine ⟨⟨_, Verdict.isTerminal_state _, hshows.state⟩, ?_⟩
  rw [hsome.judge_eq hg.before (fun m hm _ => hg.not_mem_own_outputs hm) (hreference.only hsome.closed)
    (fun _ _ _ _ _ _ => rfl) g.nodes [] (List.append_nil _).symm n hmem hn] at hshows
  exact (hreference.ended n hmem).unaffected hshows

theorem reported (ho : Orderly g k past r) (h : Sound w g t₀ V₀ V past r) (hdone : r.isDone = true) :
    Ran.ReportedAs ⟨g, past.dispatched⟩ r.summary := by
  have hresolved : r.resolved = past.dispatched.length := by
    have hreceived := (ho.received_perm hdone).length_eq
    simp only [List.length_map] at hreceived
    rw [ho.resolved, ho.completed_of_no_fatal (h.no_fatal ho), List.length_map, hreceived]
  have hle := ho.offered_length_le
  refine ⟨congrArg (·.target) ho.graph, congrArg (·.nodes.length) ho.graph, hresolved, ?_⟩
  change r.resolved + (r.graph.nodes.length - r.resolved) = r.graph.nodes.length
  rw [ho.graph]
  omega

end Sound

end GraphRun

namespace Session

/-- A cycle has come through the graphs `gs` from `p` to `p'`, and the graphs it has begun are those of
`runs`. It does not begin a graph if it finds itself cancelled. -/
inductive Traversed (w : RunSetting) : List Graph → Progress → List Ran → Progress → Prop
  | ended {p} : Traversed w [] p [] p
  | cut {g rest p} (cancelled : p.state.cancelled = true) : Traversed w (g :: rest) p [] p
  | graph {g rest p past r report runs p'} (going : p.state.cancelled = false)
    (run : GraphRun.Reached (fun _ => True) w (.start w g p.state p.lastJob) past r)
    (done : r.isDone = true) (ok : (r.closed w g).result = .ok report)
    (next : Traversed w rest ⟨(r.closed w g).state, r.lastJob, p.reports ++ [report]⟩ runs p') :
    Traversed w (g :: rest) p (⟨g, past.dispatched⟩ :: runs) p'

variable {w : RunSetting} {gs : List Graph} {p p' : Progress} {runs : List Ran}

/-- The graphs that are run are the first ones, and all of them if nobody has cancelled. -/
theorem Traversed.graphs (h : Traversed w gs p runs p') :
    runs.map (·.graph) <+: gs ∧ (p'.state.cancelled = false → runs.map (·.graph) = gs) := by
  induction h with
  | ended => exact ⟨List.prefix_refl _, fun _ => rfl⟩
  | cut cancelled => exact ⟨List.nil_prefix, fun h => by rw [cancelled] at h; cases h⟩
  | graph _ _ _ _ _ ih => exact ⟨List.prefix_cons_inj _ |>.2 ih.1, fun h => by rw [List.map_cons, ih.2 h]⟩

theorem Traversed.of_cancelled (h : Traversed w gs p runs p') (hcancelled : p.state.cancelled = true) :
    runs = [] := by
  cases h with
  | ended => rfl
  | cut => rfl
  | graph going => simp [hcancelled] at going

theorem runGraphs_traversed {pool : WorkerPool} (hpool : pool.Completes fun _ => True)
    (hgs : ∀ g ∈ gs, g.Accepted) (htame : ∀ g ∈ gs, GraphRun.Tame w g)
    (hseparate : gs.Pairwise Graph.Separate) {V : Values} (hopen : p.state.caches.open? w.cache = some V)
    (hnew : ∀ g ∈ gs, ∀ n ∈ g.nodes, n.Untouched p.state.tracker V) :
    ∃ runs p', runGraphs pool w gs p = (.ok (), p') ∧ Traversed w gs p runs p' := by
  induction gs generalizing p V with
  | nil => exact ⟨[], p, rfl, .ended⟩
  | cons g rest ih =>
    rw [runGraphs]
    split_ifs with hcancelled
    · exact ⟨[], p, rfl, .cut hcancelled⟩
    obtain ⟨hg, hrest⟩ := List.forall_mem_cons.1 hgs
    obtain ⟨htame, htames⟩ := List.forall_mem_cons.1 htame
    obtain ⟨hnew, hnews⟩ := List.forall_mem_cons.1 hnew
    obtain ⟨hapart, hseparate⟩ := List.pairwise_cons.1 hseparate
    obtain ⟨past, r, V', hrun, hdone, hsound, hconduct⟩ := conduct_sound hpool p.lastJob hg htame hopen hnew
    have hresult := hsound.result hg.wellFormed (hrun.orderly hg.wellFormed) hdone
    have hlater := untouched_later hsound hapart hnews
    rw [hconduct]
    obtain ⟨runs, p', hruns, htraversed⟩ := ih hrest htames hseparate
      (p := ⟨(r.closed w g).state, r.lastJob, p.reports ++ [r.summary]⟩) hsound.opened hlater
    exact ⟨_, p', hruns, .graph (by simpa using hcancelled) hrun hdone hresult htraversed⟩

/-- All jobs that were dispatched, in order. -/
def dispatched (runs : List Ran) : List Job := runs.flatMap (·.jobs)

/-- From `p` and the values `V` a cycle has come to `p'` and the values `V'`, and it has done a part of
what the ledger says. -/
structure PartOf (l : Ledger) (w : RunSetting) (gs : List Graph) (p : Progress) (V : Values)
    (runs : List Ran) (p' : Progress) (V' : Values) : Prop where
  opened : p'.state.caches.open? w.cache = some V'
  done : ∀ j ∈ dispatched runs, p'.state.tracker.HasEnded j.node.id ∧
    j.node.Unaffected l.tracker l.values p'.state.tracker V'
  left : ∀ g ∈ gs, ∀ n ∈ g.nodes, n ∉ (dispatched runs).map (·.node) → n.Untouched p'.state.tracker V'
  elsewhere : ∀ n : Node, (∀ g ∈ gs, ∀ a ∈ g.nodes, a.id ≠ n.id ∧ a.Apart n) →
    n.Unaffected p.state.tracker V p'.state.tracker V'
  reports : ∃ reports, p'.reports = p.reports ++ reports ∧ List.Forall₂ Ran.ReportedAs runs reports
  full : p'.state.cancelled = false → l.Matches p'.state.tracker V'

/-- A part of what the ledger says of one graph, and then a part of what it says of the others. -/
theorem PartOf.cons {g : Graph} {rest : List Graph} {past : History} {r : GraphRun} {k : Nat} {l : Ledger}
    {V V₁ V' : Values} (hg : g.WellFormed) (hsteady : ∀ n ∈ g.nodes, n.calculation.Steady)
    (hapart : ∀ a ∈ rest, g.Separate a) (ho : GraphRun.Orderly g k past r)
    (hsound : GraphRun.Sound w g p.state.tracker V V₁ past r) (hdone : r.isDone = true)
    (hnew : ∀ n ∈ g.nodes, n.Untouched p.state.tracker V) (hl : l.Matches p.state.tracker V)
    (hrest : PartOf (Ledger.visitAll Node.pureAnswer rest (g.nodes.foldl (Ledger.visit Node.pureAnswer) l)) w rest
      ⟨(r.closed w g).state, r.lastJob, p.reports ++ [r.summary]⟩ V₁ runs p' V') :
    PartOf (Ledger.visitAll Node.pureAnswer (g :: rest) l) w (g :: rest) p V (⟨g, past.dispatched⟩ :: runs) p'
      V' := by
  rw [Ledger.visitAll_cons]
  -- the graphs after it leave the nodes of this one alone, and so does the reference
  have hothers : ∀ n ∈ g.nodes, ∀ a ∈ rest, ∀ b ∈ a.nodes, b.id ≠ n.id ∧ b.Apart n :=
    fun n hn a ha b hb => (hapart a ha).symm b hb n hn
  have hstays := fun n hn => hrest.elsewhere n (hothers n hn)
  have hsame := fun n hn => Ledger.visitAll_elsewhere Node.pureAnswer rest
    (g.nodes.foldl (Ledger.visit Node.pureAnswer) l) (hothers n hn)
  refine ⟨hrest.opened, ?_, ?_, ?_, ?_, hrest.full⟩
  · intro j hj
    rw [dispatched, List.flatMap_cons, List.mem_append] at hj
    rcases hj with hj | hj
    · have hnode := List.mem_map_of_mem (f := (·.node)) hj
      have hn := (ho.dispatched_mem hnode).1
      obtain ⟨⟨st, hterminal, hst⟩, hagrees⟩ := hsound.agrees hg hsteady ho hdone hnew hl hnode
      refine ⟨⟨st, hterminal, (hstays _ hn).state.trans hst⟩, ?_⟩
      exact ((hsame _ hn).symm.trans hagrees).trans (hstays _ hn)
    · exact hrest.done j hj
  · intro a ha n hn hnot
    rw [dispatched, List.flatMap_cons, List.map_append, List.mem_append, not_or] at hnot
    rcases List.mem_cons.1 ha with rfl | ha
    · exact (hsound.untouched n hn hnot.1).frame (hstays n hn)
    · exact hrest.left a ha n hn hnot.2
  · intro n hn
    obtain ⟨hfirst, hothers⟩ := List.forall_mem_cons.1 hn
    have hbefore := hsound.elsewhere (fun a ha => (hfirst a ha).1) fun a ha => (hfirst a ha).2
    exact hbefore.trans (hrest.elsewhere n hothers)
  · obtain ⟨reports, hreports, hreported⟩ := hrest.reports
    refine ⟨r.summary :: reports, ?_, .cons (hsound.reported ho hdone) hreported⟩
    rw [hreports, List.append_assoc, List.singleton_append]

theorem Traversed.partOf (hcontain : w.containCrashes = true) (hgs : ∀ g ∈ gs, g.Accepted)
    (hsteady : ∀ g ∈ gs, ∀ n ∈ g.nodes, n.calculation.Steady) (hseparate : gs.Pairwise Graph.Separate)
    {V : Values} {l : Ledger} (hopen : p.state.caches.open? w.cache = some V)
    (hnew : ∀ g ∈ gs, ∀ n ∈ g.nodes, n.Untouched p.state.tracker V)
    (hl : p.state.cancelled = false → l.Matches p.state.tracker V) (h : Traversed w gs p runs p') :
    ∃ V', PartOf (Ledger.visitAll Node.pureAnswer gs l) w gs p V runs p' V' := by
  induction h generalizing V l with
  | ended => exact ⟨V, hopen, by simp [dispatched], by simp, fun _ _ => ⟨rfl, rfl, fun _ _ => rfl⟩,
      ⟨[], by simp, .nil⟩, hl⟩
  | cut cancelled =>
    refine ⟨V, hopen, by simp [dispatched], fun g hg n hn _ => hnew g hg n hn,
      fun _ _ => ⟨rfl, rfl, fun _ _ => rfl⟩, ⟨[], by simp, .nil⟩, ?_⟩
    intro hgoing
    rw [cancelled] at hgoing
    cases hgoing
  | @graph g rest p past r report runs p' going run done ok next ih =>
    obtain ⟨hg, hrest⟩ := List.forall_mem_cons.1 hgs
    obtain ⟨hsteady, hsteadys⟩ := List.forall_mem_cons.1 hsteady
    obtain ⟨hnew, hnews⟩ := List.forall_mem_cons.1 hnew
    obtain ⟨hapart, hseparate⟩ := List.pairwise_cons.1 hseparate
    have hwf := hg.wellFormed
    have ho := run.orderly hwf
    obtain ⟨V₁, hsound⟩ := run.sound (.of_steady hcontain hsteady) hwf hopen hnew
    obtain rfl : r.summary = report := by
      have hresult := hsound.result hwf ho done
      rw [ok] at hresult
      exact (Except.ok.inj hresult).symm
    have hmatches := hl going
    have hmatches' : (r.closed w g).state.cancelled = false →
        (g.nodes.foldl (Ledger.visit Node.pureAnswer) l).Matches r.state.tracker V₁ := fun hgoing =>
      hsound.matches hwf hsteady ho done (GraphRun.going_of_closed hgoing) hnew hmatches
    have hlater := untouched_later hsound hapart hnews
    obtain ⟨V', hrest⟩ := ih hrest hsteadys hseparate hsound.opened hlater hmatches'
    exact ⟨V', .cons hwf hsteady hapart ho hsound done hnew hmatches hrest⟩

/-! ### The whole cycle -/

variable {σ : Type} {c : Context σ} {s s' : Session σ} {token : Token} {handle : CacheHandle} {V V' : Values}

/-- The session, with a cycle that has been cancelled or not. -/
def flagged (s : Session σ) (cancelled : Bool) : Session σ := { s with cycle := { s.cycle with cancelled } }

/-- The execution of the plans from `s` on, which somebody may have cancelled, has ended in `s'`. -/
structure CutShort (c : Context σ) (token : Token) (handle : CacheHandle) (s : Session σ) (runs : List Ran)
    (s' : Session σ) (V' : Values) : Prop where
  course : ∃ p, Traversed (s.setting c token handle) s.cycle.model.schedule s.progress runs p ∧
    s' = s.started.absorb p
  graphs : runs.map (·.graph) <+: s.cycle.model.schedule
  /-- In no course of the cycle a check that is made after the cancellation lets a node be dispatched. -/
  halted : ∀ jobs g past r,
    Underway (s.setting c token handle) s.cycle.model.schedule s.progress jobs g past r →
    r.state.cancelled = true → ∀ past' r',
    GraphRun.Reached (fun _ => True) (s.setting c token handle) r past' r' →
    past'.dispatched = [] ∧ (r'.closed (s.setting c token handle) g).state.cancelled = true
  /-- Nor does one let a graph be begun. -/
  unbegun : ∀ rest p runs p', Traversed (s.setting c token handle) rest p runs p' →
    p.state.cancelled = true → runs = []
  opened : s'.world.caches.open? handle = some V'
  ended : ∀ j ∈ dispatched runs, s'.cycle.tracker.HasEnded j.node.id
  left : ∀ g ∈ s.cycle.model.graphs, ∀ n ∈ g.nodes, n ∉ (dispatched runs).map (·.node) →
    n.Untouched s'.cycle.tracker V'
  reports : ∃ reports, s'.cycle.reports = s.cycle.reports ++ reports ∧
    List.Forall₂ Ran.ReportedAs runs reports

/-- Every execution of the plans does a part of what the sequential reference does. -/
theorem execute_partOf {graphs : List Graph} (hmodel : Model.ofGraphs graphs = .ok s.cycle.model)
    (hgs : ∀ g ∈ graphs, g.Accepted) (hsteady : ∀ g ∈ graphs, ∀ n ∈ g.nodes, n.calculation.Steady)
    (hs : s.Ready handle V) (hsnapshot : s.cycle.snapshot = some token)
    (hclear : ∀ g ∈ graphs, ∀ spec ∈ g.outputs, V.get? spec = none)
    (hpool : c.pool.Completes fun _ => True) (hcontain : c.config.containCrashes = true) (cancelled : Bool) :
    ∃ runs p V', (s.flagged cancelled).execute c = (.ok (), (s.flagged cancelled).started.absorb p) ∧
      Traversed (s.setting c token handle) s.cycle.model.schedule (s.flagged cancelled).progress runs p ∧
      PartOf (Ledger.visitAll Node.pureAnswer s.cycle.model.schedule (.start s.cycle.model.nodeCount V))
        (s.setting c token handle) s.cycle.model.schedule (s.flagged cancelled).progress V runs p V' := by
  obtain ⟨rfl, hwf⟩ := Model.ofGraphs_ok hmodel
  have hmem : ∀ g ∈ s.cycle.model.schedule, g ∈ s.cycle.model.graphs := fun g hg => Model.mem_schedule.1 hg
  have hnew : ∀ g ∈ s.cycle.model.schedule, ∀ n ∈ g.nodes, n.Untouched s.cycle.tracker V := by
    intro g hg n hn
    rw [hs.tracker]
    apply Node.untouched_start (hwf.bound g (hmem g hg) n hn)
    intro spec hspec
    exact hclear g (hmem g hg) spec (Graph.mem_outputs.2 ⟨n, hn, hspec⟩)
  have hl : (Ledger.start s.cycle.model.nodeCount V).Matches s.cycle.tracker V := by
    rw [hs.tracker]
    exact ⟨rfl, rfl, rfl⟩
  have hsteadys : ∀ g ∈ s.cycle.model.schedule, ∀ n ∈ g.nodes, n.calculation.Steady :=
    fun g hg => hsteady g (hmem g hg)
  have haccepted : ∀ g ∈ s.cycle.model.schedule, g.Accepted := fun g hg => hgs g (hmem g hg)
  obtain ⟨runs, p, hrun, htraversed⟩ := runGraphs_traversed (w := s.setting c token handle)
    (p := (s.flagged cancelled).progress) hpool haccepted
    (fun g hg => .of_steady hcontain (hsteadys g hg)) hwf.separate_schedule hs.opened hnew
  obtain ⟨V', hpart⟩ := htraversed.partOf hcontain haccepted hsteadys hwf.separate_schedule hs.opened hnew
    fun _ => hl
  refine ⟨runs, p, V', ?_, htraversed, hpart⟩
  have hstage : (s.flagged cancelled).cycle.stage = .inputsPrepared := hs.stage
  rw [execute_eq hstage hsnapshot hs.cache]
  exact Prod.ext (congrArg (·.1) hrun) (congrArg (fun x => absorb _ x.2) hrun)

/-- Whenever somebody cancels the cycle, the execution goes well, and what it has done is a part of the
undisturbed execution: nodes that were dispatched are left as there, and the others as they were. -/
theorem cancelled_does_part {graphs : List Graph} (hmodel : Model.ofGraphs graphs = .ok s.cycle.model)
    (hgs : ∀ g ∈ graphs, g.Accepted) (hsteady : ∀ g ∈ graphs, ∀ n ∈ g.nodes, n.calculation.Steady)
    (hs : s.Ready handle V) (hsnapshot : s.cycle.snapshot = some token)
    (hclear : ∀ g ∈ graphs, ∀ spec ∈ g.outputs, V.get? spec = none)
    (hpool : c.pool.Completes fun _ => True) (hcontain : c.config.containCrashes = true) (cancelled : Bool) :
    ∃ s' runs V', (s.flagged cancelled).execute c = (.ok (), s') ∧
      CutShort c token handle (s.flagged cancelled) runs s' V' ∧
      ∀ (c' : Context σ) full, c'.pool.Completes (fun _ => True) → c'.config.containCrashes = true →
        s.execute c' = (.ok (), full) → full.cycle.cancelled = false →
        ∃ W, full.world.caches.open? handle = some W ∧
          ∀ j ∈ dispatched runs, j.node.Unaffected full.cycle.tracker W s'.cycle.tracker V' := by
  obtain ⟨runs, p, V', hexecute, htraversed, hpart⟩ :=
    execute_partOf hmodel hgs hsteady hs hsnapshot hclear hpool hcontain cancelled
  refine ⟨_, runs, V', hexecute, ?_, ?_⟩
  · exact
      { course := ⟨p, htraversed, rfl⟩
        graphs := htraversed.graphs.1
        halted := by
          intro jobs g past r _ hcancelled past' r' hlater
          obtain ⟨hstill, hnone⟩ := hlater.after_cancel hcancelled
          exact ⟨hnone, by simp [GraphRun.closed, RunState.notify, hstill]⟩
        unbegun := fun _ _ _ _ h hcancelled => h.of_cancelled hcancelled
        opened := hpart.opened
        ended := fun j hj => (hpart.done j hj).1
        left := fun g hg => hpart.left g (Model.mem_schedule.2 hg)
        reports := hpart.reports }
  · intro c' full hpool' hcontain' hfull hgoing
    have hflag : s.flagged false = s := by
      rw [flagged, ← hs.going]
    obtain ⟨runs', p', W, hexecute', -, hpart'⟩ :=
      execute_partOf hmodel hgs hsteady hs hsnapshot hclear hpool' hcontain' false
    rw [hflag, hfull] at hexecute'
    obtain rfl := congrArg Prod.snd hexecute'
    have hmatches := hpart'.full hgoing
    exact ⟨W, hpart'.opened, fun j hj => (hmatches.unaffected j.node).trans (hpart.done j hj).2⟩

/-! The position and the sum of positions, in a cycle that is cancelled between the two. -/

theorem positionCalculation_steady (output : String) (sources : List (String × String)) :
    (positionCalculation output sources).Steady :=
  ⟨fun _ _ _ _ => rfl, fun _ _ _ => List.not_mem_nil⟩

/-- A cycle over the position and the sum that has its inputs. -/
def positionSession : Session MemoryFeed where
  world := { feed := .empty, caches := (CacheStore.empty.standalone "view" ⟨1⟩).2 }
  cycle :=
    { Cycle.create ⟨1⟩ "view" (scattered [legNode 0, totalNode 1]) (.empty "view") with
      stage := .inputsPrepared
      snapshot := some ⟨1⟩
      cache := some ⟨0⟩ }

def patient : Context MemoryFeed := { config := {}, feed := MemoryFeed.source }

/-- The listener cancels the cycle when it hears that the node with the id 0 has completed. -/
def hasty : Context MemoryFeed :=
  { patient with listener := .scripted [] [("node_completed", (⟨0⟩ : NodeId).text)] }

theorem total_left_out_after_leg :
    ∃ s' full V' W, positionSession.execute hasty = (.ok (), s') ∧ s'.cycle.cancelled = true ∧
      positionSession.execute patient = (.ok (), full) ∧ full.cycle.cancelled = false ∧
      full.world.caches.open? ⟨0⟩ = some W ∧ s'.cycle.tracker.state? ⟨0⟩ = some .executed ∧
      (legNode 0).Unaffected full.cycle.tracker W s'.cycle.tracker V' ∧
      (totalNode 1).Untouched s'.cycle.tracker V' := by
  have hbuild : Blueprint.build { registrations := [leg, total] } = .ok positionSession.cycle.model := rfl
  have hgraphs : ∀ g ∈ [lone (legNode 0), lone (totalNode 1)], g ∈ positionSession.cycle.model.graphs :=
    fun _ hg => hg
  have hpool : WorkerPool.single.Completes fun _ => True := WorkerPool.single_completes.mono fun _ _ => trivial
  have hsteady : ∀ g ∈ [lone (legNode 0), lone (totalNode 1)], ∀ n ∈ g.nodes, n.calculation.Steady := by
    intro g hg n hn
    simp only [List.mem_cons, List.not_mem_nil, or_false] at hg
    rcases hg with rfl | rfl
    all_goals
      rw [List.mem_singleton.1 hn]
      exact positionCalculation_steady _ _
  have hready : positionSession.Ready ⟨0⟩ .empty := ⟨rfl, rfl, rfl, rfl, rfl, rfl⟩
  obtain ⟨s', runs, V', hexecute, hcut, hsame⟩ := cancelled_does_part (c := hasty) (s := positionSession) rfl
    (fun g hg => Blueprint.accepted_of_build hbuild (hgraphs g hg)) hsteady hready rfl (fun _ _ _ _ => rfl)
    hpool rfl false
  have hfull : positionSession.execute patient = (.ok (), (positionSession.execute patient).2) := rfl
  have hgoing : (positionSession.execute patient).2.cycle.cancelled = false := rfl
  obtain ⟨W, hopen, hsame⟩ := hsame patient _ hpool rfl hfull hgoing
  have hflag : positionSession.flagged false = positionSession := rfl
  rw [hflag] at hexecute hcut
  have hends : s' = (positionSession.execute hasty).2 := by rw [hexecute]
  have hstates : s'.cycle.tracker.states = [.executed, .notStarted] := by
    rw [hends]
    rfl
  have hcancelled : s'.cycle.cancelled = true := by
    rw [hends]
    rfl
  have hfirst : s'.cycle.tracker.state? ⟨0⟩ = some .executed := by simp [Tracker.state?, hstates]
  have hleg : legNode 0 ∈ (dispatched runs).map (·.node) := by
    by_contra hnot
    have hstate := (hcut.left _ List.mem_cons_self _ List.mem_cons_self hnot).state
    exact absurd (hfirst.symm.trans hstate) (by decide)
  have htotal : totalNode 1 ∉ (dispatched runs).map (·.node) := by
    intro hmem
    obtain ⟨j, hj, hnode⟩ := List.mem_map.1 hmem
    obtain ⟨st, hterminal, hst⟩ := hcut.ended j hj
    have hid : j.node.id.index = 1 := by rw [hnode]; rfl
    simp only [Tracker.state?, hid, hstates, List.getElem?_cons_succ, List.getElem?_cons_zero,
      Option.some.injEq] at hst
    rw [← hst] at hterminal
    cases hterminal
  obtain ⟨j, hj, hnode⟩ := List.mem_map.1 hleg
  refine ⟨s', _, V', W, hexecute, hcancelled, hfull, hgoing, hopen, hfirst, hnode ▸ hsame j hj, ?_⟩
  exact hcut.left _ (List.mem_cons_of_mem _ List.mem_cons_self) _ List.mem_cons_self htotal

end Session

end CalcCycle
