import CalcCycle.Proofs.Cache.Frame
import CalcCycle.Proofs.Cycle.Lifecycle

/-! What a cycle leaves behind when it is run. However far it has come and whatever fails, it is released
in the end: the snapshot that it holds is given back once, its cache is closed and no longer found, and
the failure that is reported is the first. -/

namespace CalcCycle

namespace CacheStore
variable {s s' : CacheStore} {view : String} {token : Token} {handle : CacheHandle}

/-- The cache is closed and empty, and no cache is found under the view and the token. -/
structure Gone (s : CacheStore) (view : String) (token : Token) (handle : CacheHandle) : Prop where
  notFound : s.find? view token = none
  closed : ∃ a, s.get? handle = some a ∧ a.isReleased = true ∧ a.values = .empty

/-- The cache is the one found under the view and the token, unless it is gone. -/
inductive Attached (s : CacheStore) (view : String) (token : Token) (handle : CacheHandle) : Prop
  | found (found : s.find? view token = some handle) (there : (s.get? handle).isSome = true)
  | gone (gone : s.Gone view token handle)

/-- What is found is a cache. -/
def Registered (s : CacheStore) : Prop :=
  ∀ view token handle, s.find? view token = some handle → (s.get? handle).isSome = true

theorem Attached.acquire (h : s.Registered) :
    (s.acquire view token).2.Attached view token (s.acquire view token).1 := by
  cases hfound : s.find? view token with
  | some handle =>
    simp only [CacheStore.acquire, hfound]
    exact .found hfound (h _ _ _ hfound)
  | none =>
    obtain ⟨hhandle, hlength, hfound'⟩ := acquire_new hfound
    rw [hhandle]
    refine .found hfound' ?_
    simp [get?, hlength]

theorem Attached.write (h : s.Attached view token handle) {v : Computed} (hw : s.write handle v = .ok s') :
    s'.Attached view token handle := by
  unfold CacheStore.write at hw
  cases hget : s.get? handle with
  | none =>
    simp only [hget, Except.ok.injEq] at hw
    exact hw ▸ h
  | some a =>
    simp only [hget] at hw
    cases hput : a.put v with
    | error e =>
      rw [hput] at hw
      cases hw
    | ok a' =>
      rw [hput] at hw
      cases hw
      cases h with
      | found found => exact .found found (by simp [get?_update s a' hget])
      | gone gone =>
        obtain ⟨b, hb, hreleased, -⟩ := gone.closed
        obtain rfl := Option.some.inj (hget.symm.trans hb)
        rw [(put_ok hput).1] at hreleased
        cases hreleased

theorem Attached.release (h : s.Attached view token handle) : (s.release view token).2.Gone view token handle := by
  cases h with
  | gone gone =>
    simp only [CacheStore.release, gone.notFound]
    exact gone
  | found found there =>
    obtain ⟨a, hget⟩ := Option.isSome_iff_exists.1 there
    simp only [CacheStore.release, found, hget]
    refine ⟨?_, a.release, ?_, rfl, rfl⟩
    · refine List.lookup_eq_none_iff.2 fun e he => ?_
      have hne : e.1 ≠ (view, token) := bne_iff_ne.1 (List.mem_filter.1 he).2
      exact bne_iff_ne.2 hne.symm
    · have hclosed := get?_update s a.release hget handle
      rwa [if_pos rfl] at hclosed

end CacheStore

namespace GraphRun
variable {w : RunSetting} {g : Graph} {past : History} {r : GraphRun}

theorem attached_interrupts (w : RunSetting) (l : List Interrupt) {s : RunState}
    (h : s.caches.Attached w.view w.token w.cache) :
    (l.foldl (RunState.interrupt w) s).caches.Attached w.view w.token w.cache := by
  induction l generalizing s with
  | nil => exact h
  | cons i rest ih =>
    cases i with
    | cancelCycle => exact ih h
    | releaseCache => exact ih (s := s.interrupt w .releaseCache) (.gone h.release)

/-- The cache of a run stays where it is found, also if a calculation closes it. -/
theorem Reached.attached {allowed : Move → Prop} {r₀ : GraphRun} (h : Reached allowed w r₀ past r)
    (h₀ : r₀.state.caches.Attached w.view w.token w.cache) :
    r.state.caches.Attached w.view w.token w.cache := by
  refine h.invariant (P := fun _ r => r.state.caches.Attached w.view w.token w.cache) h₀ ?_
  intro past r m past' r' hr _ hstep
  cases hstep with
  | work _ action =>
    cases action with
    | write _ written => exact hr.write written
    | call => exact attached_interrupts w _ hr
    | _ => exact hr
  | @receive c rest =>
    rw [(takeIn_keeps { r with reports := rest } c).1]
    exact hr
  | _ => exact hr

end GraphRun

namespace Session

theorem runGraphs_attached {pool : WorkerPool} {allowed : Move → Prop} (hpool : pool.Completes allowed)
    {w : RunSetting} {gs : List Graph} (hgs : ∀ g ∈ gs, g.Accepted) {p : Progress}
    (h : p.state.caches.Attached w.view w.token w.cache) :
    (runGraphs pool w gs p).2.state.caches.Attached w.view w.token w.cache := by
  induction gs generalizing p with
  | nil => exact h
  | cons g rest ih =>
    obtain ⟨hg, hrest⟩ := List.forall_mem_cons.1 hgs
    obtain ⟨-, past, hrun⟩ := hpool w g p.state p.lastJob hg
    have hafter := hrun.attached h
    rw [runGraphs]
    split_ifs with hcancelled
    · exact h
    split
    · next report state lastJob hconduct =>
      obtain rfl := congrArg (·.2.1) hconduct
      exact ih hrest hafter
    · next e state lastJob hconduct =>
      obtain rfl := congrArg (·.2.1) hconduct
      exact hafter

theorem seed_attached {σ : Type} (f : Feed σ) {view : String} {token : Token} {handle : CacheHandle}
    (rs : List Requirement) {s : Seeding σ} (h : s.world.caches.Attached view token handle) :
    (seed f token handle rs s).2.world.caches.Attached view token handle := by
  induction rs generalizing s with
  | nil => exact h
  | cons r rest ih =>
    rw [seed]
    split_ifs with hseeded
    · exact ih h
    simp only
    split
    · split
      · next written => exact ih (h.write written)
      · exact h
    · exact ih h

/-! ### Between two operations -/

variable {σ : Type} {c : Context σ} {s : Session (Audit σ)} {now : Int}

/-- A cycle that has not been released: it has given back nothing, and its cache is where it belongs. -/
structure Tended (s : Session (Audit σ)) : Prop where
  live : s.cycle.stage ≠ .released
  returned : s.world.feed.returned = []
  equipped : s.cycle.Equipped
  accepted : ∀ g ∈ s.cycle.model.schedule, g.Accepted
  attached : ∀ token handle, s.cycle.snapshot = some token → s.cycle.cache = some handle →
    s.world.caches.Attached s.cycle.view token handle

namespace Tended

/-- A cycle that takes a snapshot gives back none, and the cache it opens is found. -/
theorem take (h : Tended s) (hregistered : s.world.caches.Registered) {token : Token} {feed : Audit σ}
    {handle : CacheHandle} {acquired : Session (Audit σ)} {outcome : Except Failure Unit}
    {seeding : Seeding (Audit σ)}
    (hanswer : c.audited.feed.snapshot s.world.feed now = (.ok token, feed))
    (hopened : (s.withFeed feed).acquire token = (handle, acquired))
    (hseeded : seed c.audited.feed token handle acquired.cycle.model.liveData.elements
      { world := acquired.world } = (outcome, seeding)) :
    seeding.world.feed.returned = [] ∧ seeding.world.caches.Attached s.cycle.view token handle := by
  obtain ⟨hacquire, hfeed, -⟩ := acquire_eq hopened
  have hlists := (seed_lists c.feed token handle acquired.cycle.model.liveData.elements
    { world := acquired.world }).2
  have hopen : (s.world.caches.acquire s.cycle.view token).2.Attached s.cycle.view token _ := .acquire hregistered
  rw [show s.world.caches.acquire s.cycle.view token = _ from hacquire] at hopen
  have hattached := seed_attached c.audited.feed acquired.cycle.model.liveData.elements
    (s := { world := acquired.world }) hopen
  rw [hseeded] at hattached
  rw [show c.feed.audited = c.audited.feed from rfl, hseeded] at hlists
  refine ⟨?_, hattached⟩
  rw [hlists, hfeed]
  exact (Feed.audited_snapshot_ok hanswer).2.trans h.returned

theorem prepare (h : Tended s) (hregistered : s.world.caches.Registered) :
    Tended (s.prepare c.audited now).2 := by
  have hproceeds : s.Proceeds (s.prepare c.audited now).2 := prepare_proceeds h.equipped
  have hcases := s.prepare_cases c.audited now
  generalize s.prepare c.audited now = after at *
  cases hcases with
  | refused => exact h
  | noSnapshot stage answer =>
    exact ⟨h.live, (Feed.audited_snapshot_error answer).2.trans h.returned, h.equipped, h.accepted, h.attached⟩
  | brokenOff stage answer opened seeded =>
    obtain ⟨hreturned, hattached⟩ := h.take hregistered answer opened seeded
    cases opened
    refine ⟨h.live, hreturned, hproceeds.equipped, h.accepted, ?_⟩
    rintro _ _ ⟨⟩ ⟨⟩
    exact hattached
  | done stage answer opened seeded =>
    obtain ⟨hreturned, hattached⟩ := h.take hregistered answer opened seeded
    cases opened
    refine ⟨by simp [prepared], hreturned, hproceeds.equipped, h.accepted, ?_⟩
    rintro _ _ ⟨⟩ ⟨⟩
    exact hattached

theorem execute (hpool : c.pool.Completes fun _ => True) (h : Tended s) : Tended (s.execute c.audited).2 := by
  have hproceeds := execute_proceeds (c := c.audited) h.equipped
  have hcases := s.execute_cases c.audited
  generalize s.execute c.audited = after at *
  cases hcases with
  | refused => exact h
  | @ran stage token handle snapshot cache outcome p graphs =>
    refine ⟨by simp [started, absorb], h.returned, hproceeds.equipped, h.accepted, ?_⟩
    intro token' handle' hsnapshot hcache
    obtain rfl := Option.some.inj (snapshot.symm.trans hsnapshot)
    obtain rfl := Option.some.inj (cache.symm.trans hcache)
    have hafter := runGraphs_attached (w := s.setting c.audited token handle) (p := s.progress) hpool h.accepted
      (h.attached _ _ snapshot cache)
    rw [show c.pool = c.audited.pool from rfl, graphs] at hafter
    exact hafter

theorem populate (h : Tended s) : Tended (s.populate now).2 := by
  have hproceeds : s.Proceeds (s.populate now).2 := populate_proceeds h.equipped
  have hcases := s.populate_cases now
  generalize s.populate now = after at *
  cases hcases with
  | refused | unread => exact h
  | filled => exact ⟨by simp, h.returned, hproceeds.equipped, h.accepted, h.attached⟩

end Tended

/-- What is left of a cycle that has been released. -/
structure Cleaned (s : Session (Audit σ)) : Prop where
  stage : s.cycle.stage = .released
  /-- The snapshot that it has held is given back once, and no other is. -/
  returned : s.world.feed.returned = s.cycle.snapshot.toList
  gone : ∀ token, s.cycle.snapshot = some token →
    ∃ handle, s.cycle.cache = some handle ∧ s.world.caches.Gone s.cycle.view token handle

theorem Tended.release (h : Tended s) : Cleaned (s.release c.audited).2 := by
  have hcases := s.release_cases c.audited
  generalize s.release c.audited = after at *
  cases hcases with
  | refused stage => exact absurd stage h.live
  | nothing stage snapshot =>
    refine ⟨rfl, ?_, fun token hsnapshot => ?_⟩
    · simp [ended, snapshot, h.returned]
    · simp [ended, snapshot] at hsnapshot
  | @back stage token snapshot =>
    refine ⟨rfl, ?_, ?_⟩
    · simp [giveBack, ended, Context.audited, snapshot, h.returned]
    · intro token' hsnapshot
      obtain rfl := Option.some.inj (snapshot.symm.trans hsnapshot)
      have hsome := h.equipped.paired
      rw [snapshot, Option.isSome_some, eq_comm, Option.isSome_iff_exists] at hsome
      obtain ⟨handle, hcache⟩ := hsome
      exact ⟨handle, hcache, (h.attached _ _ snapshot hcache).release⟩

theorem Tended.run (hpool : c.pool.Completes fun _ => True) (h : Tended s)
    (hregistered : s.world.caches.Registered) (now : Int) : Cleaned (Session.run c.audited now s).2 :=
  run_keeps (P := Tended) (h.prepare hregistered) (fun _ hs => hs.execute hpool) (fun _ hs => hs.populate)
    fun _ hs => hs.release

/-! ### From any point of its life -/

/-- What others do to the feed is not among what the cycle has taken and given back. -/
def ByOthers (w w' : World (Audit σ)) : Prop :=
  w'.feed.taken = w.feed.taken ∧ w'.feed.returned = w.feed.returned

theorem Lives.custody {s₀ : Session (Audit σ)} {past : List (Operation × Stage)}
    (h : Lives c.audited ByOthers s₀ past s) (h₀ : Custody s₀ 0) : ∃ n, Custody s n := by
  induction h with
  | start => exact ⟨0, h₀⟩
  | call before operation ih =>
    obtain ⟨n, hn⟩ := ih
    exact ⟨_, hn.perform _⟩
  | cancel before ih =>
    obtain ⟨n, hn⟩ := ih
    exact ⟨n, hn.keep rfl rfl Iff.rfl Iff.rfl⟩
  | elsewhere before change ih =>
    obtain ⟨n, hn⟩ := ih
    obtain ⟨htaken, hreturned⟩ := change
    exact ⟨n, by simpa only [htaken] using hn.length_le, by simpa only [htaken] using hn.created,
      by simpa only [htaken, hreturned] using hn.held, by simpa only [htaken, hreturned] using hn.back⟩

/-- A cycle that is run is cleaned up, wherever it is in its life and whatever fails, and says what has
failed first. If it has opened a cache already, nobody else has opened another in its place. -/
theorem run_cleans_up {graphs : List Graph} {m : Model} (hm : Model.ofGraphs graphs = .ok m)
    (hgs : ∀ g ∈ graphs, g.Accepted) (hpool : c.pool.Completes fun _ => True) (start : σ) (caches : CacheStore)
    (id : Uuid) (view : String) (results : Results) (cancelled : Bool) (now : Int)
    (past : List (Operation × Stage))
    (h : Lives c.audited ByOthers (opening start caches id view m results cancelled) past s)
    (hlive : s.cycle.stage ≠ .released) (hregistered : s.world.caches.Registered)
    (hattached : ∀ token handle, s.cycle.snapshot = some token → s.cycle.cache = some handle →
      s.world.caches.Attached s.cycle.view token handle) :
    Cleaned (run c.audited now s).2 ∧
      ∃ done rest, RunsAs c.audited now s done rest ∧
        ((run c.audited now s).1 = .ok () ↔
          rest = [] ∧ ∀ o ∈ outcomes c.audited (done ++ [.release]) s, o.2 = .ok ()) := by
  have hcustody : Custody (opening start caches id view m results cancelled) 0 :=
    .fresh start caches { Cycle.create id view m results with cancelled } rfl rfl
  obtain ⟨n, hn⟩ := h.custody hcustody
  have hproceeds := h.proceeds ⟨rfl, fun hstage => by simp [opening, Cycle.create] at hstage⟩
  have haccepted : ∀ g ∈ s.cycle.model.schedule, g.Accepted := by
    rw [hproceeds.model]
    exact Model.accepted_schedule hm hgs
  have htended : Tended s := ⟨hlive, (hn.held hlive).1, hproceeds.equipped, haccepted, hattached⟩
  obtain ⟨done, rest, hruns⟩ := run_requests c.audited now s
  exact ⟨htended.run hpool hregistered now, done, rest, hruns, hruns.ok_iff⟩

/-! A calculation that crashes, where nobody contains it, over a feed that does not take back its
snapshot. -/

def crashBlueprint : Blueprint where
  registrations := [⟨.primitive "EUR", relay "Rate" "Price" (.crash none)⟩]
  liveData := [{ name := "Rate", target := .primitive "EUR" }]

def brittle : Context ScriptedFeed := { config := { containCrashes := false }, feed := ScriptedFeed.source }

theorem crash_cleaned_up :
    ∃ m s, crashBlueprint.build = .ok m ∧
      run brittle.audited 0 (opening { upcoming := [⟨1⟩], stuck := [⟨1⟩], values := sampleFeed.current }
        .empty ⟨1⟩ "view" m (.empty "view") false) =
          (.error (.invariant "function relay panicked on PRIMITIVE:EUR: unknown panic"), s) ∧
      s.cycle.snapshot = some ⟨1⟩ ∧ Cleaned s := by
  obtain ⟨m, hm⟩ : ∃ m, crashBlueprint.build = .ok m := ⟨_, rfl⟩
  have hclean := (run_cleans_up (c := brittle) (Blueprint.build_steps hm).2
    (fun g hg => Blueprint.accepted_of_build hm hg) (WorkerPool.single_completes.mono fun _ _ => trivial)
    { upcoming := [⟨1⟩], stuck := [⟨1⟩], values := sampleFeed.current } .empty ⟨1⟩ "view" (.empty "view") false
    0 [] .start nofun nofun nofun).1
  refine ⟨m, _, hm, Prod.ext ?_ rfl, ?_, hclean⟩
  · cases hm
    rfl
  · cases hm
    rfl

end Session

end CalcCycle
