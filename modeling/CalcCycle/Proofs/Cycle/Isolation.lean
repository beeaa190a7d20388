import CalcCycle.Proofs.Cycle.Footprint
import CalcCycle.Proofs.Feed.History
import Mathlib.Logic.Function.Basic
import Mathlib.Logic.Relation

/-! Cycles that work at the same time on one feed and one store of caches, in whatever turns, while others
write to the feed. Each ends as it would alone, over the values that were current when it took its
snapshot. -/

namespace CalcCycle

/-- A write to the feed spares what the cycles hold. -/
theorem FeedWrite.apply_spares (w : World MemoryFeed) (x : FeedWrite) :
    w.Spares (fun _ => False) (fun _ => False) { w with feed := x.apply w.feed } := by
  rw [apply_eq]
  exact ⟨Int.le_refl _, fun _ _ => rfl, .refl _ _ _⟩

/-! ### Several cycles -/

/-- One of several cycles, with how far its last call has come. What it was at first, the calls that it
has begun and the values that were current when it took its snapshot are remembered. -/
structure Strand where
  origin : Cycle
  cycle : Cycle
  activity : Session.Activity := .idle
  calls : List OperationCall := []
  frozen : LiveValues := .empty

namespace Strand

def session (d : Strand) (w : World MemoryFeed) : Session MemoryFeed := ⟨w, d.cycle⟩

/-- The strand after a step that begins the call, if one is given. -/
def advanced (d : Strand) (w : World MemoryFeed) (call : Option OperationCall) (cycle : Cycle)
    (activity : Session.Activity) : Strand where
  origin := d.origin
  cycle := cycle
  activity := activity
  calls := d.calls ++ call.toList
  frozen := (d.session w).frozenAt d.frozen call

/-- What the cycle will look like when the last call is over, if it works as it would alone. -/
def goal (d : Strand) : Sketch := d.origin.sketch.afterAll d.origin.model d.frozen d.calls

structure InOrder (c : Context MemoryFeed) (w : World MemoryFeed) (d : Strand) : Prop where
  calm : d.origin.model.Calm
  session : Session.InOrder c d.origin.model d.frozen d.goal (d.session w) d.activity

/-- The two cycles have neither a snapshot nor a cache in common. -/
structure Apart (d d' : Strand) : Prop where
  tokens : ∀ t, d.cycle.Owns d.activity t → ¬ d'.cycle.Owns d'.activity t
  handles : ∀ h, d.cycle.cache = some h → d'.cycle.cache ≠ some h

theorem Apart.symm {d d' : Strand} (h : d.Apart d') : d'.Apart d :=
  ⟨fun t ht ht' => h.tokens t ht' ht, fun handle hh hh' => h.handles handle hh' hh⟩

/-- The strand begins with a new cycle over a model that was built of pure calculations. -/
inductive Fresh : Strand → Prop
  | create {b : Blueprint} {m : Model} (built : b.build = .ok m)
    (pure : ∀ r ∈ b.registrations, r.calculation.Pure) (id : Uuid) (view : String) (results : Results) :
    Fresh { origin := .create id view m results, cycle := .create id view m results }

variable {c : Context MemoryFeed} {w : World MemoryFeed} {d d' : Strand}

theorem Fresh.inOrder (h : d.Fresh) (hcaches : w.caches = .empty) : d.InOrder c w := by
  obtain ⟨built, pure, id, view, results⟩ := h
  exact ⟨Model.calm_of_build built pure, .create hcaches ⟨id, view, results, rfl⟩⟩

theorem Fresh.apart (h : d.Fresh) (d' : Strand) : d.Apart d' := by
  obtain ⟨built, pure, id, view, results⟩ := h
  exact ⟨fun _ ht => ht.elim nofun nofun, nofun⟩

theorem InOrder.advance (hc : c.Sober) (h : d.InOrder c w) {call : Option OperationCall}
    {s : Session MemoryFeed} {a : Session.Activity}
    (next : Session.Advances c (· ≠ .cancel) (d.session w) d.activity call s a) :
    (d.advanced w call s.cycle a).InOrder c s.world :=
  ⟨h.calm, h.session.advanceAll hc h.calm next⟩

/-- What a cycle has after a step is its own: it had it before, or it is new. -/
theorem Apart.advance (h : d.Apart d') (hd : d'.InOrder c w) {call : Option OperationCall}
    {s : Session MemoryFeed} {a : Session.Activity} (hprint : Session.Footprint (d.session w) d.activity s a) :
    (d.advanced w call s.cycle a).Apart d' where
  tokens t ht hother := by
    rcases hprint.tokens t ht with hold | ⟨hnew, -⟩
    · exact h.tokens t hold hother
    · exact absurd (hd.session.tokens t hother) (Int.not_le.2 hnew)
  handles handle hhandle hother := by
    rcases hprint.handles handle hhandle with hold | ⟨hnew, -⟩
    · exact h.handles handle hold hother
    · exact absurd (hd.session.handles handle hother) (Nat.not_lt.2 hnew)

/-- The step of another cycle concerns nothing that this one has. -/
theorem InOrder.beside (hd : d'.InOrder c w) {call : Option OperationCall} {s : Session MemoryFeed}
    {a : Session.Activity} (hown : (d.advanced w call s.cycle a).InOrder c s.world)
    (hprint : Session.Footprint (d.session w) d.activity s a)
    (hapart : (d.advanced w call s.cycle a).Apart d') : d'.InOrder c s.world :=
  ⟨hd.calm, hd.session.frame hprint.spares (fun t ht ht' => hapart.tokens t ht' ht)
    (fun handle hh hh' => hapart.handles handle hh' hh) hown.session.tokens⟩

theorem InOrder.shows (h : d.InOrder c w) (hidle : d.activity = .idle) : d.cycle.sketch = d.goal := by
  have hstands := h.session.stands
  rw [hidle] at hstands
  cases hstands with
  | idle shows => exact shows

/-- A new cycle that makes its calls alone. -/
theorem Fresh.alone (h : d.Fresh) (hc : c.Sober) (hpool : c.pool.Completes (· ≠ .cancel))
    (calls : List OperationCall) (hcaches : w.caches = .empty) :
    (Session.performAll c (calls.map (·.request)) ⟨w, d.cycle⟩).cycle.sketch =
      d.origin.sketch.afterAll d.origin.model w.feed.current calls := by
  obtain ⟨built, pure, id, view, results⟩ := h
  exact Session.performAll_sketch hc (Model.calm_of_build built pure) hpool
    (.create hcaches ⟨id, view, results, rfl⟩) calls

end Strand

/-- Cycles that share a world. -/
structure Weave (ι : Type) where
  world : World MemoryFeed
  strands : ι → Strand

namespace Weave
variable {ι : Type}

def advanced [DecidableEq ι] (o : Weave ι) (i : ι) (call : Option OperationCall) (s : Session MemoryFeed)
    (activity : Session.Activity) : Weave ι where
  world := s.world
  strands := Function.update o.strands i ((o.strands i).advanced o.world call s.cycle activity)

def written (o : Weave ι) (x : FeedWrite) : Weave ι where
  world := { o.world with feed := x.apply o.world.feed }
  strands := o.strands

/-- One of the cycles makes a step, or somebody writes to the feed. -/
inductive Step [DecidableEq ι] (c : Context MemoryFeed) : Weave ι → Weave ι → Prop
  | advance {o : Weave ι} {i : ι} {call s a}
    (next : Session.Advances c (· ≠ .cancel) ((o.strands i).session o.world) (o.strands i).activity call s a) :
    Step c o (o.advanced i call s a)
  | write {o : Weave ι} (x : FeedWrite) : Step c o (o.written x)

/-- All cycles are new, and there are no caches. -/
structure Fresh (o : Weave ι) : Prop where
  caches : o.world.caches = .empty
  strands : ∀ i, (o.strands i).Fresh

structure InOrder (c : Context MemoryFeed) (o : Weave ι) : Prop where
  strands : ∀ i, (o.strands i).InOrder c o.world
  apart : ∀ i j, i ≠ j → (o.strands i).Apart (o.strands j)

variable {c c' : Context MemoryFeed} {o o' : Weave ι} {i : ι}

theorem Fresh.inOrder (h : o.Fresh) : o.InOrder c :=
  ⟨fun i => (h.strands i).inOrder h.caches, fun i j _ => (h.strands i).apart (o.strands j)⟩

theorem InOrder.write (h : o.InOrder c) (x : FeedWrite) : (o.written x).InOrder c where
  strands i := ⟨(h.strands i).calm, (h.strands i).session.frame (x.apply_spares o.world) (fun _ _ => not_false)
    (fun _ _ => not_false) nofun⟩
  apart := h.apart

variable [DecidableEq ι]

theorem InOrder.advance (hc : c.Sober) (h : o.InOrder c) {call : Option OperationCall} {s : Session MemoryFeed}
    {a : Session.Activity}
    (next : Session.Advances c (· ≠ .cancel) ((o.strands i).session o.world) (o.strands i).activity call s a) :
    (o.advanced i call s a).InOrder c := by
  have hprint := next.footprint hc (h.strands i).calm (h.strands i).session.stands
  have hown := (h.strands i).advance hc next
  have hapart : ∀ j, j ≠ i → ((o.strands i).advanced o.world call s.cycle a).Apart (o.strands j) :=
    fun j hj => (h.apart i j hj.symm).advance (h.strands j) hprint
  constructor
  · exact (Function.forall_update_iff o.strands fun _ d => d.InOrder c s.world).2
      ⟨hown, fun j hj => (h.strands j).beside hown hprint (hapart j hj)⟩
  · refine (Function.forall_update_iff o.strands fun j d =>
      ∀ k, j ≠ k → d.Apart ((o.advanced i call s a).strands k)).2 ⟨fun k hk => ?_, fun j hj k hjk => ?_⟩
    · simpa [advanced, hk.symm] using hapart k hk.symm
    · by_cases hk : k = i
      · subst hk
        simpa [advanced] using (hapart j hj).symm
      · simpa [advanced, hk] using h.apart j k hjk

theorem Step.inOrder (hc : c.Sober) (h : o.InOrder c) (hstep : Step c o o') : o'.InOrder c := by
  cases hstep with
  | advance next => exact h.advance hc next
  | write x => exact h.write x

theorem Step.origin (hstep : Step c o o') : ∀ j, (o'.strands j).origin = (o.strands j).origin := by
  cases hstep with
  | advance =>
    exact (Function.forall_update_iff o.strands fun j d => d.origin = (o.strands j).origin).2
      ⟨rfl, fun _ _ => rfl⟩
  | write => exact fun _ => rfl

theorem InOrder.steps (hc : c.Sober) (h : o.InOrder c) (hsteps : Relation.ReflTransGen (Step c) o o') :
    o'.InOrder c ∧ ∀ j, (o'.strands j).origin = (o.strands j).origin := by
  induction hsteps with
  | refl => exact ⟨h, fun _ => rfl⟩
  | tail _ next ih => exact ⟨next.inOrder hc ih.1, fun j => (next.origin j).trans (ih.2 j)⟩

/-- The cycle makes a whole call while the others rest. -/
def performed (o : Weave ι) (c : Context MemoryFeed) (i : ι) (call : OperationCall) : Weave ι :=
  o.advanced i (some call) (((o.strands i).session o.world).perform c call.request).2 .idle

/-- The steps of a call are steps of the whole. -/
theorem steps_of_runs (hidle : (o.strands i).activity = .idle) {call : OperationCall} {s : Session MemoryFeed}
    {a : Session.Activity}
    (h : Session.Runs c (· ≠ .cancel) ((o.strands i).session o.world) .idle [call] s a) :
    Relation.ReflTransGen (Step c) o (o.advanced i (some call) s a) := by
  generalize hcalls : [call] = calls at h
  induction h with
  | start => cases hcalls
  | @step calls s a next s' a' before step ih =>
    cases next with
    | none =>
      have hsame : (o.advanced i (some call) s a).advanced i none s' a' = o.advanced i (some call) s' a' := by
        simp [advanced, Strand.advanced, Session.frozenAt]
      rw [Option.toList_none, List.append_nil] at hcalls
      rw [← hsame]
      refine (ih hcalls).tail (.advance ?_)
      simpa [advanced, Strand.advanced, Strand.session] using step
    | some next =>
      obtain ⟨rfl, rfl⟩ : calls = [] ∧ next = call := by
        cases calls <;> simp_all
      obtain ⟨rfl, rfl⟩ := before.eq_of_nil
      exact .single (.advance (hidle ▸ step))

/-- What happens when calls and writes come one after another. -/
inductive Turn (ι : Type)
  | call (i : ι) (call : OperationCall)
  | write (x : FeedWrite)

def turn (c : Context MemoryFeed) (o : Weave ι) : Turn ι → Weave ι
  | .call i call => o.performed c i call
  | .write x => o.written x

theorem turn_steps (hpool : c.pool.Completes (· ≠ .cancel)) (h : o.InOrder c)
    (hidle : ∀ i, (o.strands i).activity = .idle) (x : Turn ι) :
    Relation.ReflTransGen (Step c) o (o.turn c x) ∧ ∀ i, ((o.turn c x).strands i).activity = .idle := by
  cases x with
  | call i call =>
    have hgs : ∀ g ∈ (o.strands i).cycle.model.schedule, g.Accepted := by
      have hmodel : (o.strands i).cycle.model = (o.strands i).origin.model := (h.strands i).session.model
      rw [hmodel]
      exact (h.strands i).calm.accepted
    exact ⟨steps_of_runs (hidle i) (Session.perform_runs hpool hgs call),
      (Function.forall_update_iff o.strands fun _ d => d.activity = .idle).2 ⟨rfl, fun j _ => hidle j⟩⟩
  | write x => exact ⟨.single (.write x), hidle⟩

/-- Whole calls and writes, one after another, are steps. -/
theorem turns_steps (hc : c.Sober) (hpool : c.pool.Completes (· ≠ .cancel)) (h : o.InOrder c)
    (hidle : ∀ i, (o.strands i).activity = .idle) (turns : List (Turn ι)) :
    Relation.ReflTransGen (Step c) o (turns.foldl (turn c) o) ∧
      ∀ i, ((turns.foldl (turn c) o).strands i).activity = .idle := by
  induction turns generalizing o with
  | nil => exact ⟨.refl, hidle⟩
  | cons x rest ih =>
    obtain ⟨hfirst, hidle⟩ := turn_steps hpool h hidle x
    obtain ⟨hrest, hend⟩ := ih (h.steps hc hfirst).1 hidle
    exact ⟨hfirst.trans hrest, hend⟩

/-- Whatever the turns, a cycle that is between two calls is as it would be if it had made its calls
alone, in whatever context, on a feed with the values that were current when it took its snapshot. -/
theorem strand_as_alone (hc : c.Sober) (hc' : c'.Sober) (hpool : c'.pool.Completes (· ≠ .cancel)) (h : o.Fresh)
    (hsteps : Relation.ReflTransGen (Step c) o o') (i : ι) (hidle : (o'.strands i).activity = .idle)
    (feed : MemoryFeed) :
    (o'.strands i).cycle.sketch =
      (Session.performAll c' ((o'.strands i).calls.map (·.request))
        ⟨{ feed := { feed with current := (o'.strands i).frozen } }, (o.strands i).cycle⟩).cycle.sketch := by
  obtain ⟨hstands, horigin⟩ := h.inOrder.steps hc hsteps
  rw [(h.strands i).alone hc' hpool _ rfl, ← horigin i]
  exact (hstands.strands i).shows hidle

/-! Two cycles over a model that passes a rate on. The rate changes between their preparations, and their
calls take turns. -/

def rateAsked : Requirement := { name := "Rate", target := .primitive "USD" }

def passedOn (t : Target) : Specification := { name := "PV", target := t }

def echo : Calculation where
  name := "echo"
  requirements _ := [rateAsked]
  results t := [passedOn t]
  call _ t inputs := ⟨.values (inputs.values.map fun p => ⟨passedOn t, p⟩), []⟩

def echoBlueprint : Blueprint where
  registrations := [⟨.position "Leg", echo⟩]
  liveData := [rateAsked]

def rates (rate : String) : LiveValues := SortedMap.empty.insert rateAsked.resolve (.text rate)

def inMemory : Context MemoryFeed := { config := {}, feed := MemoryFeed.source }

def twoCycles (m : Model) : Weave Bool where
  world := { feed := { current := rates "1" } }
  strands b :=
    { origin := .create ⟨b.toNat⟩ "view" m (.empty "view")
      cycle := .create ⟨b.toNat⟩ "view" m (.empty "view") }

/-- The second cycle prepares its inputs after the rate has changed. -/
def takingTurns (m : Model) : Weave Bool :=
  [.call false (.prepareInputs, 7), .write (.set rateAsked.resolve (.text "2")), .call true (.prepareInputs, 7),
    .call false (.executePlans, 8), .call true (.executePlans, 8), .call true (.populateResults, 9),
    .call true (.releaseResources, 9), .call false (.populateResults, 9)].foldl (turn inMemory) (twoCycles m)

theorem echo_pure : echo.Pure := ⟨fun _ _ _ _ => rfl, fun _ _ _ => rfl⟩

theorem rates_kept_apart :
    ∃ m, echoBlueprint.build = .ok m ∧
      ((takingTurns m).strands false).cycle.results.values.get? (passedOn (.position "Leg")) = some (.text "1") ∧
      ((takingTurns m).strands true).cycle.results.values.get? (passedOn (.position "Leg")) = some (.text "2") ∧
      ∀ b, ((takingTurns m).strands b).cycle.sketch =
        (Session.performAll inMemory (((takingTurns m).strands b).calls.map (·.request))
          ⟨{ feed := { current := rates (if b then "2" else "1") } },
            ((twoCycles m).strands b).cycle⟩).cycle.sketch := by
  obtain ⟨m, hm⟩ : ∃ m, echoBlueprint.build = .ok m := ⟨_, rfl⟩
  have hpure : ∀ r ∈ echoBlueprint.registrations, r.calculation.Pure := by
    intro r hr
    rw [List.mem_singleton.1 hr]
    exact echo_pure
  have hfresh : (twoCycles m).Fresh := ⟨rfl, fun b => .create hm hpure ⟨b.toNat⟩ "view" (.empty "view")⟩
  have hsober : inMemory.Sober := ⟨rfl, fun _ => rfl, rfl⟩
  obtain ⟨hsteps, hidle⟩ := turns_steps hsober WorkerPool.single_completes hfresh.inOrder (fun _ => rfl) _
  have halone := fun b =>
    strand_as_alone hsober hsober WorkerPool.single_completes hfresh hsteps b (hidle b) .empty
  cases hm
  refine ⟨_, rfl, rfl, rfl, fun b => ?_⟩
  cases b with
  | false => exact halone false
  | true => exact halone true

end Weave

end CalcCycle
