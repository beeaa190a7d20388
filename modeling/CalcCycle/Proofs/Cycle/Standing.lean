import CalcCycle.Proofs.Cache.Frame
import CalcCycle.Proofs.Cycle.Sketch

/-! How a cycle stands between two of its steps, while others work on the same feed and the same caches.
It relies on the snapshot and the cache that it has, and on nothing else of the feed and of the caches;
and its steps leave the snapshots and the caches of others alone. -/

namespace CalcCycle

/-- The feed is held in memory, nobody cancels, and crashes are contained. -/
structure Context.Sober (c : Context MemoryFeed) : Prop where
  feed : c.feed = MemoryFeed.source
  listener : c.listener.NeverCancels
  contains : c.config.containCrashes = true

/-- The change concerns snapshots of which `T` holds, caches of which `H` holds, and new ones. -/
structure World.Spares (T : Token → Prop) (H : CacheHandle → Prop) (w w' : World MemoryFeed) : Prop where
  last : w.feed.last ≤ w'.feed.last
  snapshots : ∀ t, ¬ T t → w'.feed.snapshots.get? t = w.feed.snapshots.get? t
  caches : w.caches.Spares T H w'.caches

namespace GraphRun
variable {w : RunSetting} {g : Graph} {k : Nat} {past past' : History} {r r' : GraphRun} {m : Move}
  {t₀ : Tracker} {V₀ V : Values} {caches : CacheStore}

theorem Orderly.withCaches (h : Orderly g k past r) (caches : CacheStore) : Orderly g k past (r.withCaches caches) :=
  ⟨h.graph, h.lastJob, h.ids, h.pending, h.opened, h.placed, h.arrived, h.outstanding, h.resolved, h.fatal,
    h.dropped⟩

/-- A run stands as it does if other caches change. -/
theorem Sound.withCaches (h : Sound w g t₀ V₀ V past r) (hopen : caches.open? w.cache = some V) :
    Sound w g t₀ V₀ V past (r.withCaches caches) :=
  ⟨hopen, h.fits, h.untouched, h.nodes, h.values⟩

/-- A move in a run concerns the cache of the run only. -/
theorem Step.spares {T : Token → Prop} {H : CacheHandle → Prop} (hH : H w.cache)
    (hkeeps : ∀ n ∈ g.nodes, ∀ c t i, Interrupt.releaseCache ∉ (n.calculation.call c t i).interrupts)
    (ho : Orderly g k past r) (h : Step w past r m past' r') :
    r.state.caches.Spares T H r'.state.caches := by
  cases h with
  | @work front j back s p jobs action =>
    have hj : j ∈ r.jobs ++ past.reported := by simp [jobs]
    have hn := hkeeps _ (ho.dispatched_mem (ho.node_mem hj)).1
    cases action with
    | write _ written => exact .write T hH written
    | @call inputs reply _ answer =>
      have hkept : Interrupt.releaseCache ∉ reply.interrupts := answer ▸ hn _ _ _
      simp only [Job.foldl_interrupt_caches w hkept]
      exact .refl T H _
    | _ => exact .refl T H _
  | @receive c rest =>
    rw [(takeIn_keeps { r with reports := rest } c).1]
    exact .refl T H _
  | _ => exact .refl T H _

end GraphRun

/-- The snapshot that a cycle has, or is about to have. -/
def Cycle.Owns (c : Cycle) (a : Session.Activity) (t : Token) : Prop := c.snapshot = some t ∨ a = .frozen t

namespace Session

/-- The cycle has a snapshot with the values `frozen` and an open cache with the values `V`. -/
structure Holds (s : Session MemoryFeed) (frozen : LiveValues) (token : Token) (handle : CacheHandle)
    (V : Values) : Prop where
  snapshot : s.cycle.snapshot = some token
  cache : s.cycle.cache = some handle
  kept : s.world.feed.snapshots.get? token = some frozen
  opened : s.world.caches.open? handle = some V
  registered : s.world.caches.find? s.cycle.view token = some handle

/-- The cycle has not taken anything yet. -/
structure New (s : Session MemoryFeed) (m : Model) : Prop where
  stage : s.cycle.stage = .created
  snapshot : s.cycle.snapshot = none
  cache : s.cycle.cache = none
  tracker : s.cycle.tracker = .start m.nodeCount

/-- What a cycle has between two calls. -/
inductive Rests (s : Session MemoryFeed) (m : Model) (frozen : LiveValues) : Prop
  | new (new : s.New m)
  | ready {token handle} (stage : s.cycle.stage = .inputsPrepared) (tracker : s.cycle.tracker = .start m.nodeCount)
    (holds : s.Holds frozen token handle (m.seeds frozen).1)
  | done {token handle} (stage : s.cycle.stage ∈ Operation.allowed .populateResults)
    (holds : s.Holds frozen token handle (m.ledger frozen).values)
  | released (stage : s.cycle.stage = .released)

/-- How a cycle over the model stands in an activity; when the activity is over it will look like `k`. -/
inductive Stands (c : Context MemoryFeed) (m : Model) (frozen : LiveValues) (k : Sketch)
    (s : Session MemoryFeed) : Activity → Prop
  | idle (shows : s.cycle.sketch = k) (rests : s.Rests m frozen) : Stands c m frozen k s .idle
  | frozen {token} (aims : s.cycle.sketch.prepared m frozen = k) (new : s.New m)
    (kept : s.world.feed.snapshots.get? token = some frozen)
    (unopened : s.world.caches.find? s.cycle.view token = none) : Stands c m frozen k s (.frozen token)
  | asking {token handle rest seeded missing V} (aims : s.cycle.sketch.prepared m frozen = k)
    (tracker : s.cycle.tracker = .start m.nodeCount) (holds : s.Holds frozen token handle V)
    (fresh : ∀ spec ∉ seeded, V.get? spec = none)
    (ahead : frozen.sow rest seeded V missing = m.seeds frozen) :
    Stands c m frozen k s (.asking token handle rest seeded missing)
  | answered {token handle v rest seeded missing V} (aims : s.cycle.sketch.prepared m frozen = k)
    (tracker : s.cycle.tracker = .start m.nodeCount) (holds : s.Holds frozen token handle V)
    (fresh : ∀ spec ∉ seeded, V.get? spec = none) (new : v.specification ∉ seeded)
    (ahead : frozen.sow rest (v.specification :: seeded) (V.insert v.specification v.payload) missing =
      m.seeds frozen) :
    Stands c m frozen k s (.answered token handle v rest seeded missing)
  | between {token handle V l rest p} (aims : s.cycle.sketch.executed m frozen = k)
    (stage : s.cycle.stage = .executing) (holds : s.Holds frozen token handle V)
    (going : p.state.cancelled = false) (part : rest <:+ m.schedule) (states : l.Matches p.state.tracker V)
    (ahead : Ledger.visitAll Node.pureAnswer rest l = m.ledger frozen)
    (untouched : ∀ a ∈ rest, ∀ n ∈ a.nodes, n.Untouched p.state.tracker V) :
    Stands c m frozen k s (.between (s.setting c token handle) rest p)
  | inside {token handle V l g rest reports r j past t₀ V₀} (aims : s.cycle.sketch.executed m frozen = k)
    (stage : s.cycle.stage = .executing) (holds : s.Holds frozen token handle V)
    (going : r.state.cancelled = false) (part : g :: rest <:+ m.schedule)
    (orderly : GraphRun.Orderly g j past (r.withCaches s.world.caches))
    (sound : GraphRun.Sound (s.setting c token handle) g t₀ V₀ V past (r.withCaches s.world.caches))
    (states : l.Matches t₀ V₀) (ahead : Ledger.visitAll Node.pureAnswer (g :: rest) l = m.ledger frozen)
    (untouched : ∀ a ∈ g :: rest, ∀ n ∈ a.nodes, n.Untouched t₀ V₀) :
    Stands c m frozen k s (.inside (s.setting c token handle) g rest reports r)
  | collecting {token handle now rest found} (aims : s.cycle.sketch.populated m frozen = k)
    (stage : s.cycle.stage ∈ Operation.allowed .populateResults)
    (holds : s.Holds frozen token handle (m.ledger frozen).values)
    (ahead : found ++ (m.ledger frozen).values.known rest = m.findings frozen) :
    Stands c m frozen k s (.collecting handle now rest found)
  | closing {token handle} (shows : s.cycle.sketch = k) (stage : s.cycle.stage = .released)
    (snapshot : s.cycle.snapshot = some token) (cache : s.cycle.cache = some handle)
    (registered : s.world.caches.find? s.cycle.view token = some handle) :
    Stands c m frozen k s (.closing token)

/-! ### Steps of others -/

section Others
variable {c : Context MemoryFeed} {m : Model} {frozen : LiveValues} {k : Sketch} {s : Session MemoryFeed}
  {a : Activity} {T : Token → Prop} {H : CacheHandle → Prop} {w' : World MemoryFeed} {token : Token}
  {handle : CacheHandle} {V : Values}

theorem Holds.frame (h : s.Holds frozen token handle V) (hw : s.world.Spares T H w') (hT : ¬ T token)
    (hH : ¬ H handle) : Holds ⟨w', s.cycle⟩ frozen token handle V where
  snapshot := h.snapshot
  cache := h.cache
  kept := (hw.snapshots token hT).trans h.kept
  opened := hw.caches.open? h.opened hH
  registered := (hw.caches.found _ token hT).trans h.registered

/-- Where others leave alone what the cycle has, it stands as before. -/
theorem Stands.frame (h : Stands c m frozen k s a) (hw : s.world.Spares T H w')
    (hT : ∀ t, s.cycle.Owns a t → ¬ T t) (hH : ∀ h, s.cycle.cache = some h → ¬ H h) :
    Stands c m frozen k ⟨w', s.cycle⟩ a := by
  have hholds : ∀ {token handle V}, s.Holds frozen token handle V → Holds ⟨w', s.cycle⟩ frozen token handle V :=
    fun h => h.frame hw (hT _ (Or.inl h.snapshot)) (hH _ h.cache)
  cases h with
  | idle shows rests =>
    refine .idle shows ?_
    cases rests with
    | new new => exact .new ⟨new.stage, new.snapshot, new.cache, new.tracker⟩
    | ready stage tracker holds => exact .ready stage tracker (hholds holds)
    | done stage holds => exact .done stage (hholds holds)
    | released stage => exact .released stage
  | @frozen token aims new kept unopened =>
    have hnot : ¬ T token := hT token (Or.inr rfl)
    exact .frozen aims ⟨new.stage, new.snapshot, new.cache, new.tracker⟩
      ((hw.snapshots token hnot).trans kept) ((hw.caches.found _ token hnot).trans unopened)
  | asking aims tracker holds fresh ahead => exact .asking aims tracker (hholds holds) fresh ahead
  | answered aims tracker holds fresh new ahead => exact .answered aims tracker (hholds holds) fresh new ahead
  | between aims stage holds going part states ahead untouched =>
    exact .between aims stage (hholds holds) going part states ahead untouched
  | inside aims stage holds going part orderly sound states ahead untouched =>
    have hopen := (hholds holds).opened
    exact .inside aims stage (hholds holds) going part (orderly.withCaches w'.caches) (sound.withCaches hopen) states ahead
      untouched
  | collecting aims stage holds ahead => exact .collecting aims stage (hholds holds) ahead
  | closing shows stage snapshot cache registered =>
    exact .closing shows stage snapshot cache
      ((hw.caches.found _ _ (hT _ (Or.inl snapshot))).trans registered)

end Others

/-! ### Steps of its own -/

section Own
variable {c : Context MemoryFeed} {m : Model} {frozen : LiveValues} {k : Sketch} {s : Session MemoryFeed}
  {token : Token} {handle : CacheHandle}

/-- The values frozen for the cycle when it begins the call: the current ones if the call takes the
snapshot. -/
def frozenAt (s : Session MemoryFeed) (frozen : LiveValues) : Option OperationCall → LiveValues
  | some (.prepareInputs, _) => if s.cycle.stage = .created then s.world.feed.current else frozen
  | _ => frozen

theorem frozenAt_of_ne_created (h : s.cycle.stage ≠ .created) (call : Option OperationCall) :
    s.frozenAt frozen call = frozen := by
  unfold frozenAt
  split
  · rw [if_neg h]
  · rfl

theorem Holds.acquired {V : Values} (h : s.Holds frozen token handle V) :
    s.cycle.acquired = .ok (token, handle) := by
  simp [Cycle.acquired, h.snapshot, h.cache]

namespace Stands

/-- A call that is refused changes nothing. -/
theorem refused (h : Stands c m frozen k s .idle) {op : Operation} (hstage : s.cycle.stage ∉ op.allowed)
    (now : Int) : Stands c m (s.frozenAt frozen (some (op, now))) (k.after m (s.frozenAt frozen (some (op, now))) op)
      s .idle := by
  have hfrozen : s.frozenAt frozen (some (op, now)) = frozen := by
    cases op with
    | prepareInputs => exact if_neg (by simpa [Operation.allowed] using hstage)
    | _ => rfl
  cases h with
  | idle shows rests =>
    rw [hfrozen, Sketch.after_of_notMem (by rwa [← shows])]
    exact .idle shows rests

/-- What the call of an operation that goes ahead aims at. -/
theorem aims (h : Stands c m frozen k s .idle) {op : Operation} (hstage : s.cycle.stage ∈ op.allowed)
    (frozen' : LiveValues) : s.cycle.sketch.performed m frozen' op = k.after m frozen' op := by
  cases h with
  | idle shows => rw [← shows, Sketch.after_of_mem hstage]

/-- A cycle whose inputs have been prepared has a snapshot and a cache. -/
theorem not_lacking (h : Stands c m frozen k s .idle) {op : Operation} {e : Failure}
    (hneeds : op = .executePlans ∨ op = .populateResults) (hstage : s.cycle.stage ∈ op.allowed) :
    s.cycle.acquired ≠ .error e := by
  cases h with
  | idle shows rests =>
    cases rests with
    | new new =>
      rw [new.stage] at hstage
      obtain rfl | rfl := hneeds <;> simp [Operation.allowed] at hstage
    | ready _ _ holds => simp [holds.acquired]
    | done _ holds => simp [holds.acquired]
    | released stage =>
      rw [stage] at hstage
      obtain rfl | rfl := hneeds <;> simp [Operation.allowed] at hstage

/-- A new cycle takes a snapshot of the current values, under a token that is not in use. -/
theorem freeze (h : Stands c m frozen k s .idle) (hstage : s.cycle.stage = .created)
    (hregistered : ∀ e ∈ s.world.caches.registered, e.1.2.value ≤ s.world.feed.last) (now : Int) :
    Stands c m s.world.feed.current (k.after m s.world.feed.current .prepareInputs)
      (s.withFeed (s.world.feed.takeSnapshot now).2) (.frozen (s.world.feed.takeSnapshot now).1) := by
  have haims := h.aims (show s.cycle.stage ∈ Operation.allowed .prepareInputs by simp [hstage, Operation.allowed])
    s.world.feed.current
  cases h with
  | idle shows rests =>
    have hnew : s.New m := by
      cases rests with
      | new new => exact new
      | ready stage => rw [hstage] at stage; cases stage
      | done stage => simp [hstage, Operation.allowed] at stage
      | released stage => rw [hstage] at stage; cases stage
    refine .frozen haims ⟨hnew.stage, hnew.snapshot, hnew.cache, hnew.tracker⟩ ?_ ?_
    · exact (SortedMap.get?_insert _ _ _ _).trans (if_pos rfl)
    · apply CacheStore.find?_eq_none
      intro e he heq
      have hle := hregistered e he
      rw [heq] at hle
      simp only [MemoryFeed.takeSnapshot] at hle
      omega

theorem acquire (h : Stands c m frozen k s (.frozen token)) (hmodel : s.cycle.model = m) :
    Stands c m frozen k (s.acquire token).2
      (.asking token (s.acquire token).1 s.cycle.model.liveData.elements [] .empty) := by
  cases h with
  | frozen aims new kept unopened =>
    obtain ⟨hhandle, -, hfound⟩ := CacheStore.acquire_new unopened
    refine .asking (V := .empty) aims new.tracker ⟨rfl, rfl, kept, CacheStore.open?_acquire unopened, ?_⟩
      (fun _ _ => rfl) (by rw [hmodel]; rfl)
    exact hfound.trans (congrArg some hhandle.symm)

/-! The seeding -/

section Seeding
variable {rest : List Requirement} {seeded : List Specification} {missing : SortedSet Requirement}
  {r : Requirement} {v : Computed}

theorem skip (h : Stands c m frozen k s (.asking token handle (r :: rest) seeded missing))
    (hknown : r.resolve ∈ seeded) : Stands c m frozen k s (.asking token handle rest seeded missing) := by
  cases h with
  | asking aims tracker holds fresh ahead =>
    rw [LiveValues.sow, if_pos hknown] at ahead
    exact .asking aims tracker holds fresh ahead

/-- A query under the token of a cycle finds what was frozen for it, and leaves the feed alone. -/
theorem query_eq (hc : c.Sober) (h : Stands c m frozen k s (.asking token handle (r :: rest) seeded missing)) :
    c.feed.query s.world.feed token r = (.ok (frozen.lookup r), s.world.feed) := by
  cases h with
  | asking _ _ holds =>
    rw [hc.feed]
    simp only [MemoryFeed.source, MemoryFeed.query, holds.kept]

theorem ask (h : Stands c m frozen k s (.asking token handle (r :: rest) seeded missing))
    (hnew : r.resolve ∉ seeded) {p : Payload} (hp : frozen.lookup r = some p) :
    Stands c m frozen k s (.answered token handle ⟨r.resolve, p⟩ rest seeded missing) := by
  cases h with
  | asking aims tracker holds fresh ahead =>
    rw [LiveValues.sow, if_neg hnew, hp] at ahead
    exact .answered aims tracker holds fresh hnew ahead

theorem miss (h : Stands c m frozen k s (.asking token handle (r :: rest) seeded missing))
    (hnew : r.resolve ∉ seeded) (hp : frozen.lookup r = none) :
    Stands c m frozen k s (.asking token handle rest seeded (missing.insert r)) := by
  cases h with
  | asking aims tracker holds fresh ahead =>
    rw [LiveValues.sow, if_neg hnew, hp] at ahead
    exact .asking aims tracker holds fresh ahead

/-- The answer is written, for nobody else writes to the cache. -/
theorem store (h : Stands c m frozen k s (.answered token handle v rest seeded missing)) :
    ∃ caches, s.world.caches.write handle v = .ok caches ∧
      Stands c m frozen k (s.withCaches caches)
        (.asking token handle rest (v.specification :: seeded) missing) := by
  cases h with
  | answered aims tracker holds fresh new ahead =>
    obtain ⟨caches, hwrite, hopen, -, hregistered⟩ :=
      CacheStore.write_of_open holds.opened (v := v) (fresh _ new)
    refine ⟨caches, hwrite, .asking aims tracker ⟨holds.snapshot, holds.cache, holds.kept, hopen, ?_⟩ ?_ ahead⟩
    · have hfound := holds.registered
      unfold CacheStore.find? at hfound ⊢
      change caches.registered.lookup _ = _
      rw [hregistered]
      exact hfound
    · intro spec hspec
      rw [List.mem_cons, not_or] at hspec
      rw [SortedMap.get?_insert, if_neg hspec.1, fresh spec hspec.2]

theorem prepared (h : Stands c m frozen k s (.asking token handle [] seeded missing)) :
    Stands c m frozen k (s.prepared ⟨s.world, seeded, missing⟩) .idle := by
  cases h with
  | asking aims tracker holds _ ahead =>
    rw [LiveValues.sow] at ahead
    have hvalues := congrArg Prod.fst ahead
    have hmissing := congrArg Prod.snd ahead
    refine .idle ?_ (.ready rfl tracker
      ⟨holds.snapshot, holds.cache, holds.kept, hvalues ▸ holds.opened, holds.registered⟩)
    rw [← aims, Sketch.prepared, ← hmissing]
    rfl

end Seeding

/-! The execution -/

section Execution
variable {w : RunSetting} {g : Graph} {rest : List Graph} {p : Progress} {reports : List GraphReport}
  {r : GraphRun}

theorem execute (hm : m.Calm) (h : Stands c m frozen k s .idle) (hmodel : s.cycle.model = m)
    (hgoing : s.cycle.cancelled = false) (hstage : s.cycle.stage = .inputsPrepared)
    (hacquired : s.cycle.acquired = .ok (token, handle)) :
    Stands c m frozen (k.after m frozen .executePlans) s.started
      (.between (s.setting c token handle) s.cycle.model.schedule s.progress) := by
  subst hmodel
  have haims := h.aims (show s.cycle.stage ∈ Operation.allowed .executePlans by simp [hstage, Operation.allowed])
    frozen
  cases h with
  | idle shows rests =>
    cases rests with
    | new new => simp [new.stage] at hstage
    | done stage => simp [hstage, Operation.allowed] at stage
    | released stage => simp [stage] at hstage
    | ready stage tracker holds =>
      rw [holds.acquired] at hacquired
      cases hacquired
      refine .between (l := .start s.cycle.model.nodeCount (s.cycle.model.seeds frozen).1) haims rfl
        ⟨holds.snapshot, holds.cache, holds.kept, holds.opened, holds.registered⟩ hgoing (List.suffix_refl _)
        ?_ rfl ?_
      · change Ledger.Matches _ s.cycle.tracker _
        rw [tracker]
        exact ⟨rfl, rfl, rfl⟩
      · change ∀ a ∈ s.cycle.model.schedule, ∀ n ∈ a.nodes, n.Untouched s.cycle.tracker _
        rw [tracker]
        exact hm.untouched frozen

theorem enter (hc : c.Sober) (hm : m.Calm) (h : Stands c m frozen k s (.between w (g :: rest) p)) :
    Stands c m frozen k s (.inside w g rest p.reports (.start w g p.state p.lastJob)) := by
  cases h with
  | @between token handle V l _ _ aims stage holds going part states ahead untouched =>
    have hwf := (hm.accepted g (part.subset List.mem_cons_self)).wellFormed
    have hstarted : (GraphRun.start (s.setting c token handle) g p.state p.lastJob).state.cancelled = false := by
      simp [GraphRun.start, RunState.notify, going, setting, hc.listener _]
    exact .inside aims stage holds hstarted part
      (GraphRun.Orderly.start hwf { p.state with caches := s.world.caches })
      (GraphRun.Sound.start (s := { p.state with caches := s.world.caches }) p.lastJob holds.opened
        (untouched g List.mem_cons_self)) states ahead untouched

theorem move (hc : c.Sober) (hm : m.Calm) (h : Stands c m frozen k s (.inside w g rest reports r)) {mv : Move}
    {r' : GraphRun} (hmv : mv ≠ .cancel) (hstep : (r.withCaches s.world.caches).step w mv = some r') :
    Stands c m frozen k (s.withCaches r'.state.caches) (.inside w g rest reports r') := by
  cases h with
  | @inside token handle V l _ _ _ _ j past t₀ V₀ aims stage holds going part orderly sound states ahead untouched =>
    have hmem := part.subset List.mem_cons_self
    have hwf := (hm.accepted g hmem).wellFormed
    have hpure := hm.pure g hmem
    have hmoved := GraphRun.step_cases hstep past
    obtain ⟨V', hsound⟩ := sound.step (.of_steady hc.contains fun n hn => (hpure n hn).steady) hwf orderly hmoved
    have hspares : s.world.caches.Spares (fun _ => False) (· = handle) r'.state.caches :=
      hmoved.spares (H := (· = handle)) rfl (fun n hn => (hpure n hn).steady.keeps) orderly
    exact .inside aims stage
      ⟨holds.snapshot, holds.cache, holds.kept, hsound.opened, (hspares.found _ _ not_false).trans holds.registered⟩
      (hmoved.not_cancelled hc.listener hpure orderly hmv going) part (orderly.step hwf hmoved) hsound states ahead
      untouched

/-- A run that is over has gone well, and the rest of the graphs is left. -/
theorem leave (hc : c.Sober) (hm : m.Calm) (h : Stands c m frozen k s (.inside w g rest reports r))
    (hdone : r.isDone = true) :
    ∃ report, (r.closed w g).result = .ok report ∧
      Stands c m frozen k s (.between w rest ⟨(r.closed w g).state, r.lastJob, reports ++ [report]⟩) := by
  cases h with
  | @inside token handle V l _ _ _ _ j past t₀ V₀ aims stage holds going part orderly sound states ahead untouched =>
    have hmem := part.subset List.mem_cons_self
    have hwf := (hm.accepted g hmem).wellFormed
    have hpure := hm.pure g hmem
    obtain ⟨hnew, hnews⟩ := List.forall_mem_cons.1 untouched
    have hapart := (List.pairwise_cons.1 (hm.separate.sublist part.sublist)).1
    have hgoing : (r.closed (s.setting c token handle) g).state.cancelled = false := by
      simp [GraphRun.closed, RunState.notify, going, setting, hc.listener _]
    have hresult := sound.result hwf orderly hdone
    have hmatches := sound.matches hwf (fun n hn => (hpure n hn).steady) orderly hdone going hnew states
    have hlater := untouched_later sound hapart hnews
    rw [Ledger.visitAll_cons] at ahead
    exact ⟨_, hresult, .between aims stage holds hgoing ((List.suffix_cons g rest).trans part) hmatches ahead hlater⟩

theorem executed (h : Stands c m frozen k s (.between w rest p)) (hended : rest = [] ∨ p.state.cancelled = true) :
    Stands c m frozen k (s.absorb (p.withCaches s.world.caches)) .idle := by
  cases h with
  | @between token handle V l _ _ aims stage holds going part states ahead untouched =>
    obtain rfl := hended.resolve_right (by simp [going])
    have hl : l = m.ledger frozen := ahead
    rw [hl] at states
    refine .idle ?_ (.done (by simp [absorb, stage, Operation.allowed])
      ⟨holds.snapshot, holds.cache, holds.kept, states.values ▸ holds.opened, holds.registered⟩)
    rw [← aims]
    simp only [Cycle.sketch, absorb, Progress.withCaches, Sketch.executed, states.states, states.reasons, stage]

end Execution

/-! The results -/

section Results
variable {now : Int} {spec : Specification} {rest : List Specification} {found : List Computed}

theorem populate (h : Stands c m frozen k s .idle) (hmodel : s.cycle.model = m)
    (hstage : s.cycle.stage ∈ Operation.allowed .populateResults)
    (hacquired : s.cycle.acquired = .ok (token, handle)) :
    Stands c m frozen (k.after m frozen .populateResults) s
      (.collecting handle now (reported s.cycle.model) []) := by
  subst hmodel
  have haims := h.aims hstage frozen
  cases h with
  | idle shows rests =>
    cases rests with
    | new new => simp [new.stage, Operation.allowed] at hstage
    | ready stage => simp [stage, Operation.allowed] at hstage
    | released stage => simp [stage, Operation.allowed] at hstage
    | done stage holds =>
      rw [holds.acquired] at hacquired
      cases hacquired
      exact .collecting haims hstage holds rfl

/-- A lookup finds what the execution has left. -/
theorem look (h : Stands c m frozen k s (.collecting handle now (spec :: rest) found)) :
    ∃ v, s.world.caches.read handle spec = .ok v ∧
      Stands c m frozen k s (.collecting handle now rest (found ++ v.toList)) := by
  cases h with
  | collecting aims stage holds ahead =>
    refine ⟨_, CacheStore.read_of_open holds.opened spec, .collecting aims stage holds ?_⟩
    rw [← ahead, List.append_assoc]
    congr 1
    unfold Values.known
    cases hv : (m.ledger frozen).values.get? spec <;> simp [hv]

theorem filled (h : Stands c m frozen k s (.collecting handle now [] found)) :
    Stands c m frozen k (s.filled now found) .idle := by
  cases h with
  | collecting aims stage holds ahead =>
    have hfound : found = m.findings frozen := by simpa [Values.known] using ahead
    refine .idle ?_ (.done (by simp [Session.filled, Operation.allowed])
      ⟨holds.snapshot, holds.cache, holds.kept, holds.opened, holds.registered⟩)
    rw [← aims]
    simp only [Cycle.sketch, Session.filled, Sketch.populated, Results.addAll_values, hfound]

end Results

/-! The release -/

theorem nothing (h : Stands c m frozen k s .idle) (hstage : s.cycle.stage ∈ Operation.allowed .releaseResources) :
    Stands c m frozen (k.after m frozen .releaseResources) s.ended .idle :=
  .idle (h.aims hstage frozen) (.released rfl)

theorem giveBack (h : Stands c m frozen k s .idle)
    (hstage : s.cycle.stage ∈ Operation.allowed .releaseResources) (hsnapshot : s.cycle.snapshot = some token) :
    Stands c m frozen (k.after m frozen .releaseResources)
      (s.ended.withFeed (c.feed.release s.world.feed token).2) (.closing token) := by
  have haims := h.aims hstage frozen
  have hheld : ∀ {token' handle V}, s.Holds frozen token' handle V →
      Stands c m frozen (k.after m frozen .releaseResources)
        (s.ended.withFeed (c.feed.release s.world.feed token).2) (.closing token) := by
    intro token' handle V holds
    obtain rfl : token' = token := Option.some.inj (holds.snapshot.symm.trans hsnapshot)
    exact .closing haims rfl hsnapshot holds.cache holds.registered
  cases h with
  | idle shows rests =>
    cases rests with
    | new new => simp [new.snapshot] at hsnapshot
    | ready _ _ holds => exact hheld holds
    | done _ holds => exact hheld holds
    | released stage => exact absurd (stage ▸ hstage) (Cycle.released_notMem_allowed _)

theorem close (h : Stands c m frozen k s (.closing token)) :
    Stands c m frozen k (s.withCaches (s.world.caches.release s.cycle.view token).2) .idle := by
  cases h with
  | closing shows stage => exact .idle shows (.released stage)

end Stands

/-- The sketch that is aimed at when a step begins the call. -/
def aimedAt (m : Model) (frozen : LiveValues) (k : Sketch) : Option OperationCall → Sketch
  | some (op, _) => k.after m frozen op
  | none => k

/-- A cycle that stands makes no step that it would not make alone, and stands again. -/
theorem Advances.stands {a a' : Activity} {call : Option OperationCall} {s' : Session MemoryFeed}
    (hc : c.Sober) (hm : m.Calm) (hmodel : s.cycle.model = m) (hgoing : s.cycle.cancelled = false)
    (hregistered : ∀ e ∈ s.world.caches.registered, e.1.2.value ≤ s.world.feed.last)
    (h : Stands c m frozen k s a) (hstep : Advances c (· ≠ .cancel) s a call s' a') :
    Stands c m (s.frozenAt frozen call) (aimedAt m (s.frozenAt frozen call) k call) s' a' := by
  cases hstep with
  | refused refusal => exact h.refused (Cycle.stage_notMem_of_expect refusal) _
  | lacking admitted needs lack => exact absurd lack (h.not_lacking needs (Cycle.stage_mem_of_expect admitted))
  | noSnapshot _ answer =>
    rw [hc.feed] at answer
    cases answer
  | @freeze now _ _ admitted answer =>
    have hstage : s.cycle.stage = .created := by simpa [Operation.allowed] using Cycle.stage_mem_of_expect admitted
    rw [hc.feed] at answer
    cases answer
    have hfrozen : s.frozenAt frozen (some (.prepareInputs, now)) = s.world.feed.current := if_pos hstage
    rw [hfrozen]
    exact h.freeze hstage hregistered now
  | acquire => exact h.acquire hmodel
  | skip known => exact h.skip known
  | ask new answer =>
    obtain ⟨hlookup, rfl⟩ := Prod.mk.inj ((h.query_eq hc).symm.trans answer)
    exact h.ask new (Except.ok.inj hlookup)
  | miss new asked unknown =>
    obtain ⟨rfl, rfl⟩ := Prod.mk.inj ((h.query_eq hc).symm.trans asked)
    exact h.miss new (Option.eq_none_iff_forall_ne_some.2 fun p hp => unknown p (congrArg Except.ok hp))
  | store written =>
    obtain ⟨caches, hwrite, hstands⟩ := h.store
    rw [hwrite] at written
    cases written
    exact hstands
  | clash refused =>
    obtain ⟨caches, hwrite, -⟩ := h.store
    rw [hwrite] at refused
    cases refused
  | prepared => exact h.prepared
  | execute admitted held =>
    have hstage : s.cycle.stage = .inputsPrepared := by
      simpa [Operation.allowed] using Cycle.stage_mem_of_expect admitted
    exact h.execute hm hmodel hgoing hstage held
  | enter => exact h.enter hc hm
  | move ok step => exact h.move hc hm ok step
  | leave done result =>
    obtain ⟨report, hreport, hstands⟩ := h.leave hc hm done
    rw [hreport] at result
    cases result
    exact hstands
  | abort done result =>
    obtain ⟨report, hreport, -⟩ := h.leave hc hm done
    rw [hreport] at result
    cases result
  | executed ended => exact h.executed ended
  | populate admitted held => exact h.populate hmodel (Cycle.stage_mem_of_expect admitted) held
  | look read =>
    obtain ⟨v, hread, hstands⟩ := h.look
    rw [hread] at read
    cases read
    exact hstands
  | unread read =>
    obtain ⟨v, hread, -⟩ := h.look
    rw [hread] at read
    cases read
  | filled => exact h.filled
  | nothing admitted => exact h.nothing (Cycle.stage_mem_of_expect admitted)
  | giveBack admitted held => exact h.giveBack (Cycle.stage_mem_of_expect admitted) held
  | close => exact h.close

end Own

end Session

end CalcCycle
