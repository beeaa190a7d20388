import CalcCycle.Proofs.Cycle.Custody
import CalcCycle.Proofs.Execution.Failures

/-! The life of a cycle, from when it is created on. Its operations may be called in any order and as
often as one likes, it may be cancelled, and the feed and the caches may change meanwhile. The stage goes
one way; an operation that does not fit the stage does nothing; the graphs are run once at most; and a
cycle that has come beyond its creation, and has not been released, has a snapshot and a cache. -/

namespace CalcCycle

/-- The operation that is requested, if it is a single one. -/
def Request.operation? : Request → Option Operation
  | .prepare _ => some .prepareInputs
  | .execute => some .executePlans
  | .populate _ => some .populateResults
  | .release => some .releaseResources
  | .run _ => none

/-- What a cycle says that goes on without a snapshot or a cache. -/
def Failure.unequipped : Failure := .invariant "cycle has no snapshot or cache after preparing inputs"

theorem Failure.BreaksOff.ne_unequipped {e : Failure} (h : e.BreaksOff) : e ≠ .unequipped := by
  intro he
  cases h with
  | cache => cases he
  | outOfTurn | crash | stalled =>
    have hfirst := congrArg (fun text => text.toList.head?) (Failure.invariant.inj he)
    simp [NodeId.text] at hfirst

theorem Cycle.expect_ne_unequipped {c : Cycle} {op : Operation} (h : c.stage ∉ op.allowed) :
    c.expect op ≠ .error .unequipped := by
  rw [Cycle.expect_error h]
  intro he
  split_ifs at he <;> cases he

/-- A cycle has a cache where it has a snapshot, and it has both from when its inputs are prepared until
it is released. -/
structure Cycle.Equipped (c : Cycle) : Prop where
  paired : c.snapshot.isSome = c.cache.isSome
  held : c.stage ∈ [Stage.inputsPrepared, .executing, .resultsPopulated] → c.snapshot.isSome = true

theorem Cycle.Equipped.acquired {c : Cycle} (h : c.Equipped)
    (hstage : c.stage ∈ [Stage.inputsPrepared, .executing, .resultsPopulated]) :
    ∃ token handle, c.snapshot = some token ∧ c.cache = some handle ∧ c.acquired = .ok (token, handle) := by
  rcases c.acquired_cases with hheld | ⟨hnone | hnone, -⟩
  · exact hheld
  · have hsome := h.held hstage
    simp [hnone] at hsome
  · have hsome := h.held hstage
    rw [h.paired, hnone] at hsome
    cases hsome

namespace Session
variable {σ : Type} {c : Context σ} {now : Int} {s : Session σ}

/-- An operation that does not fit the stage does nothing: it asks neither the feed nor the cache for
anything, and leaves the cycle as it is. -/
theorem perform_refused {request : Request} {op : Operation} (hop : request.operation? = some op)
    (hstage : s.cycle.stage ∉ op.allowed) :
    s.perform c request =
      (.error (if s.cycle.stage = .released then .cycleReleased else .lifecycle op.text s.cycle.stage), s) := by
  have hexpect := Cycle.expect_error hstage
  cases request with
  | prepare now =>
    cases hop
    unfold perform prepare
    rw [hexpect]
  | execute =>
    cases hop
    unfold perform execute
    rw [hexpect]
  | populate now =>
    cases hop
    unfold perform populate
    rw [hexpect]
  | release =>
    cases hop
    unfold perform release
    rw [hexpect]
  | run now => cases hop

/-! ### One operation -/

/-- What an operation does to a cycle. -/
structure Proceeds (s s' : Session σ) : Prop where
  view : s'.cycle.view = s.cycle.view
  model : s'.cycle.model = s.cycle.model
  forward : s.cycle.stage.rank ≤ s'.cycle.stage.rank
  equipped : s'.cycle.Equipped

theorem Proceeds.same (h : s.cycle.Equipped) : Proceeds s s := ⟨rfl, rfl, Nat.le_refl _, h⟩

theorem prepare_proceeds (h : s.cycle.Equipped) : Proceeds s (s.prepare c now).2 := by
  have hcases := s.prepare_cases c now
  generalize s.prepare c now = after at hcases
  cases hcases with
  | refused => exact .same h
  | noSnapshot => exact ⟨rfl, rfl, Nat.le_refl _, h⟩
  | brokenOff stage answer opened =>
    cases opened
    exact ⟨rfl, rfl, Nat.le_refl _, rfl, fun _ => rfl⟩
  | done stage answer opened =>
    cases opened
    exact ⟨rfl, rfl, by simp [stage, Stage.rank], rfl, fun _ => rfl⟩

theorem execute_proceeds (h : s.cycle.Equipped) : Proceeds s (s.execute c).2 := by
  have hcases := s.execute_cases c
  generalize s.execute c = after at hcases
  cases hcases with
  | refused => exact .same h
  | ran stage =>
    refine ⟨rfl, rfl, by simp [stage, started, absorb, Stage.rank], h.paired, fun _ => h.held ?_⟩
    simp [stage]

theorem populate_proceeds (h : s.cycle.Equipped) : Proceeds s (s.populate now).2 := by
  have hcases := s.populate_cases now
  generalize s.populate now = after at hcases
  cases hcases with
  | refused | unread => exact .same h
  | filled stage =>
    have hstage : s.cycle.stage = .executing ∨ s.cycle.stage = .resultsPopulated := by
      simpa [Operation.allowed] using stage
    refine ⟨rfl, rfl, ?_, h.paired, fun _ => h.held ?_⟩
    · rcases hstage with hs | hs <;> simp [hs, Stage.rank]
    · rcases hstage with hs | hs <;> simp [hs]

theorem release_proceeds (h : s.cycle.Equipped) : Proceeds s (s.release c).2 := by
  have hcases := s.release_cases c
  generalize s.release c = after at hcases
  cases hcases with
  | refused => exact .same h
  | nothing | back =>
    refine ⟨rfl, rfl, ?_, h.paired, fun hstage => ?_⟩
    · change s.cycle.stage.rank ≤ 4
      cases s.cycle.stage <;> decide
    · simp [ended, giveBack] at hstage

theorem perform_proceeds (h : s.cycle.Equipped) {request : Request} {op : Operation}
    (hop : request.operation? = some op) : Proceeds s (s.perform c request).2 := by
  cases request with
  | prepare now => exact prepare_proceeds h
  | execute => exact execute_proceeds h
  | populate now => exact populate_proceeds h
  | release => exact release_proceeds h
  | run now => cases hop

/-- A cycle that has its inputs runs its graphs, which it cannot do again. -/
theorem execute_stage (h : s.cycle.Equipped) (hstage : s.cycle.stage = .inputsPrepared) :
    (s.execute c).2.cycle.stage = .executing := by
  obtain ⟨token, handle, hsnapshot, hcache, -⟩ := h.acquired (by simp [hstage])
  rw [execute_eq hstage hsnapshot hcache]
  rfl

/-! ### The failures of an operation -/

theorem runGraphs_breaksOff {pool : WorkerPool} {allowed : Move → Prop} (hpool : pool.Completes allowed)
    {w : RunSetting} {gs : List Graph} (hgs : ∀ g ∈ gs, g.Accepted) {p : Progress} {e : Failure}
    (h : (runGraphs pool w gs p).1 = .error e) : e.BreaksOff := by
  induction gs generalizing p with
  | nil => cases h
  | cons g rest ih =>
    obtain ⟨hg, hrest⟩ := List.forall_mem_cons.1 hgs
    rw [runGraphs] at h
    split_ifs at h with hcancelled
    split at h
    · exact ih hrest h
    · next reason state lastJob hconduct =>
      cases h
      exact GraphRun.conduct_breaksOff hpool hg (congrArg Prod.fst hconduct)

theorem perform_ne_unequipped {allowed : Move → Prop} (hpool : c.pool.Completes allowed)
    (hgs : ∀ g ∈ s.cycle.model.schedule, g.Accepted) (h : s.cycle.Equipped) {request : Request}
    {op : Operation} (hop : request.operation? = some op) :
    (s.perform c request).1 ≠ .error .unequipped := by
  by_cases hallowed : s.cycle.stage ∈ op.allowed
  swap
  · rw [perform_refused hop hallowed, ← Cycle.expect_error hallowed]
    exact Cycle.expect_ne_unequipped hallowed
  cases request with
  | prepare now =>
    cases hop
    simp only [perform]
    have hcases := s.prepare_cases c now
    generalize s.prepare c now = after at hcases
    cases hcases with
    | refused stage => simp [Operation.allowed, stage] at hallowed
    | noSnapshot | brokenOff | done =>
      intro he
      cases he
  | execute =>
    cases hop
    have hstage : s.cycle.stage = .inputsPrepared := by simpa [Operation.allowed] using hallowed
    obtain ⟨token, handle, hsnapshot, hcache, -⟩ := h.acquired (by simp [hstage])
    simp only [perform]
    rw [execute_eq hstage hsnapshot hcache]
    exact fun he => (runGraphs_breaksOff hpool hgs he).ne_unequipped rfl
  | populate now =>
    cases hop
    obtain ⟨token, handle, hsnapshot, hcache, -⟩ := h.acquired (by
      simp only [Operation.allowed] at hallowed
      exact List.mem_cons_of_mem _ hallowed)
    simp only [perform]
    have hcases := s.populate_cases now
    generalize s.populate now = after at hcases
    cases hcases with
    | refused broken => simp [hallowed, hsnapshot, hcache] at broken
    | unread | filled =>
      intro he
      cases he
  | release =>
    simp only [perform]
    have hcases := s.release_cases c
    generalize s.release c = after at hcases
    cases hcases with
    | refused | nothing =>
      intro he
      cases he
    | back =>
      intro he
      simp only [giveBack, Except.mapError] at he
      split at he <;> cases he
  | run now => cases hop

/-! ### All operations in one -/

/-- The first failure of the requests, if there is one. -/
def firstFailure : List (Request × Except Failure Unit) → Except Failure Unit
  | [] => .ok ()
  | (_, .ok ()) :: rest => firstFailure rest
  | (_, .error e) :: _ => .error e

theorem firstFailure_mem {os : List (Request × Except Failure Unit)} {e : Failure}
    (h : firstFailure os = .error e) : ∃ o ∈ os, o.2 = .error e := by
  induction os with
  | nil => cases h
  | cons o rest ih =>
    obtain ⟨request, outcome⟩ := o
    cases outcome with
    | ok u =>
      obtain ⟨o, ho, he⟩ := ih h
      exact ⟨o, List.mem_cons_of_mem _ ho, he⟩
    | error reason => exact ⟨_, List.mem_cons_self, h⟩

theorem firstFailure_ok {os : List (Request × Except Failure Unit)} :
    firstFailure os = .ok () ↔ ∀ o ∈ os, o.2 = .ok () := by
  induction os with
  | nil => exact iff_of_true rfl (List.forall_mem_nil _)
  | cons o rest ih =>
    obtain ⟨request, outcome⟩ := o
    rw [List.forall_mem_cons]
    cases outcome with
    | ok u => exact ih.trans (iff_and_self.2 fun _ => rfl)
    | error e => exact iff_of_false nofun fun h => nomatch h.1

/-- A run makes the requests that are done, of which the last has failed if there are others to come, and
then releases; and it says what failed first. -/
structure RunsAs (c : Context σ) (now : Int) (s : Session σ) (done rest : List Request) : Prop where
  order : done ++ rest = [.prepare now, .execute, .populate now]
  session : (run c now s).2 = performAll c (done ++ [.release]) s
  outcome : (run c now s).1 = firstFailure (outcomes c (done ++ [.release]) s)
  going : ∀ o ∈ (outcomes c done s).dropLast, o.2 = .ok ()
  broken : rest ≠ [] → ∃ o, (outcomes c done s).getLast? = some o ∧ o.2 ≠ .ok ()

theorem run_requests (c : Context σ) (now : Int) (s : Session σ) : ∃ done rest, RunsAs c now s done rest := by
  cases hprepare : s.prepare c now with
  | mk prepared s₁ =>
    cases prepared with
    | error e =>
      exact ⟨[.prepare now], [.execute, .populate now], by constructor <;>
        simp [run, andThen, performAll, perform, outcomes, firstFailure, hprepare, Except.bind]⟩
    | ok u =>
      cases hexecute : s₁.execute c with
      | mk executed s₂ =>
        cases executed with
        | error e =>
          exact ⟨[.prepare now, .execute], [.populate now], by constructor <;>
            simp [run, andThen, performAll, perform, outcomes, firstFailure, hprepare, hexecute, Except.bind]⟩
        | ok u =>
          refine ⟨[.prepare now, .execute, .populate now], [], ?_⟩
          cases hpopulate : s₂.populate now with
          | mk populated s₃ =>
            cases populated with
            | error e => constructor <;>
                simp [run, andThen, performAll, perform, outcomes, firstFailure, hprepare, hexecute, hpopulate,
                  Except.bind]
            | ok u =>
              cases hrelease : s₃.release c with
              | mk released s₄ =>
                cases released with
                | error e | ok u => constructor <;>
                  simp [run, andThen, performAll, perform, outcomes, firstFailure, hprepare, hexecute,
                    hpopulate, hrelease, Except.bind]

/-- A run makes requests for single operations. -/
theorem RunsAs.single {done rest : List Request} (h : RunsAs c now s done rest) :
    ∀ request ∈ done ++ [.release], ∃ op, request.operation? = some op := by
  intro request hrequest
  rcases List.mem_append.1 hrequest with hdone | hrelease
  · have hmem : request ∈ [Request.prepare now, .execute, .populate now] := by
      rw [← h.order]
      exact List.mem_append_left _ hdone
    simp only [List.mem_cons, List.not_mem_nil, or_false] at hmem
    rcases hmem with rfl | rfl | rfl <;> exact ⟨_, rfl⟩
  · obtain rfl := List.mem_singleton.1 hrelease
    exact ⟨_, rfl⟩

theorem outcomes_append (c : Context σ) (rs rs' : List Request) (s : Session σ) :
    outcomes c (rs ++ rs') s = outcomes c rs s ++ outcomes c rs' (performAll c rs s) := by
  induction rs generalizing s with
  | nil => rfl
  | cons request rest ih => exact congrArg _ (ih _)

/-- A run succeeds if all four operations do. -/
theorem RunsAs.ok_iff {done rest : List Request} (h : RunsAs c now s done rest) :
    (run c now s).1 = .ok () ↔ rest = [] ∧ ∀ o ∈ outcomes c (done ++ [.release]) s, o.2 = .ok () := by
  rw [h.outcome, firstFailure_ok, iff_and_self]
  intro hok
  by_contra hrest
  obtain ⟨o, hlast, hfailed⟩ := h.broken hrest
  apply hfailed
  apply hok
  rw [outcomes_append]
  exact List.mem_append_left _ (List.mem_of_getLast? hlast)

theorem outcomes_ne_unequipped {allowed : Move → Prop} (hpool : c.pool.Completes allowed) {rs : List Request}
    (hrs : ∀ request ∈ rs, ∃ op, request.operation? = some op) {s : Session σ}
    (hgs : ∀ g ∈ s.cycle.model.schedule, g.Accepted) (h : s.cycle.Equipped) :
    ∀ o ∈ outcomes c rs s, o.2 ≠ .error .unequipped := by
  induction rs generalizing s with
  | nil => exact List.forall_mem_nil _
  | cons request rest ih =>
    obtain ⟨⟨op, hop⟩, hrest⟩ := List.forall_mem_cons.1 hrs
    have hproceeds := perform_proceeds (c := c) h hop
    refine List.forall_mem_cons.2 ⟨perform_ne_unequipped hpool hgs h hop, ih hrest ?_ hproceeds.equipped⟩
    rwa [hproceeds.model]

/-! ### A whole life -/

/-- The life of a cycle from `s₀` on. Its operations are called, in the stages in which they find it;
somebody cancels it; and `others` change the feed and the caches. -/
inductive Lives (c : Context σ) (others : World σ → World σ → Prop) (s₀ : Session σ) :
    List (Operation × Stage) → Session σ → Prop
  | start : Lives c others s₀ [] s₀
  | call {past s request op} (before : Lives c others s₀ past s) (operation : request.operation? = some op) :
    Lives c others s₀ (past ++ [(op, s.cycle.stage)]) (s.perform c request).2
  | cancel {past s} (before : Lives c others s₀ past s) : Lives c others s₀ past ⟨s.world, s.cycle.cancel⟩
  | elsewhere {past s world} (before : Lives c others s₀ past s) (change : others s.world world) :
    Lives c others s₀ past ⟨world, s.cycle⟩

namespace Lives
variable {others : World σ → World σ → Prop} {s₀ : Session σ} {past : List (Operation × Stage)}

theorem performAll (h : Lives c others s₀ past s) {rs : List Request}
    (hrs : ∀ request ∈ rs, ∃ op, request.operation? = some op) :
    ∃ calls, Lives c others s₀ (past ++ calls) (Session.performAll c rs s) := by
  induction rs generalizing past s with
  | nil => exact ⟨[], by rwa [List.append_nil]⟩
  | cons request rest ih =>
    obtain ⟨⟨op, hop⟩, hrest⟩ := List.forall_mem_cons.1 hrs
    obtain ⟨calls, hlives⟩ := ih (h.call hop) hrest
    rw [List.append_assoc] at hlives
    exact ⟨_, hlives⟩

/-- A run is a part of the life of the cycle like the operations it is made of. -/
theorem run (h : Lives c others s₀ past s) (now : Int) :
    ∃ calls, Lives c others s₀ (past ++ calls) (Session.run c now s).2 := by
  obtain ⟨done, rest, hruns⟩ := run_requests c now s
  rw [hruns.session]
  exact h.performAll hruns.single

theorem proceeds (h : Lives c others s₀ past s) (hs₀ : s₀.cycle.Equipped) : Proceeds s₀ s := by
  induction h with
  | start => exact .same hs₀
  | call before operation ih =>
    have hcall := perform_proceeds (c := c) ih.equipped operation
    have hforward := Nat.le_trans ih.forward hcall.forward
    exact ⟨hcall.view.trans ih.view, hcall.model.trans ih.model, hforward, hcall.equipped⟩
  | cancel before ih => exact ⟨ih.view, ih.model, ih.forward, ih.equipped.paired, ih.equipped.held⟩
  | elsewhere before change ih => exact ⟨ih.view, ih.model, ih.forward, ih.equipped⟩

/-- A cycle whose graphs have been run has come beyond the stage in which they are run. -/
theorem attempts (h : Lives c others s₀ past s) (hs₀ : s₀.cycle.Equipped) :
    past.count (.executePlans, .inputsPrepared) ≤
      if s.cycle.stage.rank ≤ Stage.inputsPrepared.rank then 0 else 1 := by
  induction h with
  | start => exact Nat.zero_le _
  | @call past s request op before operation ih =>
    have hequipped := (before.proceeds hs₀).equipped
    have hforward := (perform_proceeds (c := c) hequipped operation).forward
    rw [List.count_append]
    by_cases hattempt : op = .executePlans ∧ s.cycle.stage = .inputsPrepared
    · obtain ⟨rfl, hstage⟩ := hattempt
      obtain rfl : request = .execute := by cases request <;> cases operation; rfl
      have hafter := execute_stage (c := c) hequipped hstage
      simp only [perform, hafter, hstage, Stage.rank, Nat.le_refl, if_true] at ih ⊢
      simp [Nat.le_zero.1 ih]
    · have hother : (op, s.cycle.stage) ≠ (.executePlans, .inputsPrepared) := by simpa using hattempt
      rw [List.count_singleton, if_neg (by simpa using hother), Nat.add_zero]
      split_ifs at ih ⊢ <;> omega
  | cancel before ih => exact ih
  | elsewhere before change ih => exact ih

end Lives

/-- What is certain of a cycle that has been through the calls `past`. -/
structure Governed (c : Context σ) (others : World σ → World σ → Prop) (past : List (Operation × Stage))
    (s : Session σ) : Prop where
  forward : ∀ calls s', Lives c others s calls s' → s.cycle.stage.rank ≤ s'.cycle.stage.rank
  /-- An operation that is not allowed is refused, whatever the feed and the caches are, and they stay as
  they are like all of the cycle. -/
  refused : ∀ request op, request.operation? = some op → s.cycle.stage ∉ op.allowed →
    ∀ {ρ : Type} (c' : Context ρ) (world : World ρ), perform c' ⟨world, s.cycle⟩ request =
      (.error (if s.cycle.stage = .released then .cycleReleased else .lifecycle op.text s.cycle.stage),
        ⟨world, s.cycle⟩)
  once : past.count (.executePlans, .inputsPrepared) ≤ 1
  paired : s.cycle.snapshot.isSome = s.cycle.cache.isSome
  held : s.cycle.stage ∈ [Stage.inputsPrepared, .executing, .resultsPopulated] →
    ∃ token handle, s.cycle.snapshot = some token ∧ s.cycle.cache = some handle
  sound : ∀ request, (s.perform c request).1 ≠
    .error (.invariant "cycle has no snapshot or cache after preparing inputs")

/-- A new cycle over an accepted model is governed all its life, whatever the feed and the calculations
do. -/
theorem life_governed {graphs : List Graph} {m : Model} (hm : Model.ofGraphs graphs = .ok m)
    (hgs : ∀ g ∈ graphs, g.Accepted) (hpool : c.pool.Completes fun _ => True)
    (others : World σ → World σ → Prop) (world : World σ) (id : Uuid) (view : String) (results : Results)
    (past : List (Operation × Stage))
    (h : Lives c others ⟨world, Cycle.create id view m results⟩ past s) : Governed c others past s := by
  have hnew : (Cycle.create id view m results).Equipped :=
    ⟨rfl, fun hstage => by simp [Cycle.create] at hstage⟩
  have hproceeds := h.proceeds hnew
  have hequipped := hproceeds.equipped
  have haccepted : ∀ g ∈ s.cycle.model.schedule, g.Accepted := by
    rw [hproceeds.model]
    exact Model.accepted_schedule hm hgs
  refine ⟨fun calls s' hlater => (hlater.proceeds hequipped).forward, ?_, ?_, hequipped.paired, ?_, ?_⟩
  · exact fun request op hop hstage ρ c' world => perform_refused hop hstage
  · exact Nat.le_trans (h.attempts hnew) (by split_ifs <;> decide)
  · intro hstage
    obtain ⟨token, handle, hsnapshot, hcache, -⟩ := hequipped.acquired hstage
    exact ⟨token, handle, hsnapshot, hcache⟩
  · intro request
    cases hop : request.operation? with
    | some op => exact perform_ne_unequipped hpool haccepted hequipped hop
    | none =>
      cases request with
      | run now =>
        obtain ⟨done, rest, hruns⟩ := run_requests c now s
        intro he
        obtain ⟨o, ho, hfailure⟩ := firstFailure_mem (hruns.outcome.symm.trans he)
        exact outcomes_ne_unequipped hpool hruns.single haccepted hequipped o ho hfailure
      | prepare | execute | populate | release => cases hop

/-- A new cycle that finds values in the cache which it opens. -/
def crowdedSession (m : Model) : Session ScriptedFeed where
  world := { feed := { upcoming := [⟨1⟩], values := sampleFeed.current }, caches := seededStore }
  cycle := .create ⟨1⟩ "view" m (.empty "view")

/-- Its preparation is broken off, and leaves a new cycle that holds a snapshot and a cache. -/
theorem crowded_governed :
    ∃ m s, sampleBlueprint.build = .ok m ∧ s.cycle.stage = .created ∧ s.cycle.snapshot = some ⟨1⟩ ∧
      Lives { config := {}, feed := ScriptedFeed.source } (fun _ _ => False) (crowdedSession m)
        [(.prepareInputs, .created)] s ∧
      Governed { config := {}, feed := ScriptedFeed.source } (fun _ _ => False) [(.prepareInputs, .created)] s := by
  obtain ⟨m, hm⟩ : ∃ m, sampleBlueprint.build = .ok m := ⟨_, rfl⟩
  have hlives : Lives { config := {}, feed := ScriptedFeed.source } (fun _ _ => False) (crowdedSession m) _
      ((crowdedSession m).perform { config := {}, feed := ScriptedFeed.source } (.prepare 0)).2 :=
    .call .start rfl
  have hgoverned := life_governed (Blueprint.build_steps hm).2 (fun g hg => Blueprint.accepted_of_build hm hg)
    (WorkerPool.single_completes.mono fun _ _ => trivial) _ _ _ _ _ _ hlives
  refine ⟨m, _, hm, ?_, ?_, hlives, hgoverned⟩
  · cases hm
    rfl
  · cases hm
    rfl

end Session

end CalcCycle
