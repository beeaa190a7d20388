import CalcCycle.Cycle.Basic
import CalcCycle.Proofs.Cache.Open
import Mathlib.Tactic.SplitIfs

/-! Preparing the inputs of a cycle. Where the feed takes a snapshot and nobody has opened the cache,
the preparation succeeds, whatever the feed answers to the queries: the cache then has values for live
data of the model only, each of them an answer to a requirement that resolves to its specification. -/

namespace CalcCycle

/-- The feed may be left in the state `b` by queries under the token, from the state `a` on. -/
inductive Feed.Asked {σ : Type} (f : Feed σ) (token : Token) (a : σ) : σ → Prop
  | none : Asked f token a a
  | query {b} (r : Requirement) (before : Asked f token a b) : Asked f token a (f.query b token r).2

namespace Session

variable {σ : Type} {f : Feed σ} {token : Token} {handle : CacheHandle}

/-- The value is an answer of the feed to a requirement that resolves to the specification. -/
def Answered (f : Feed σ) (token : Token) (start : σ) (wanted : List Requirement) (spec : Specification)
    (p : Payload) : Prop :=
  ∃ r ∈ wanted, r.resolve = spec ∧
    ∃ b, f.Asked token start b ∧ (f.query b token r).1 = .ok (some p)

/-- What has been seeded from the state `start` of the feed on. -/
structure Seeded (f : Feed σ) (token : Token) (start : σ) (wanted : List Requirement)
    (handle : CacheHandle) (seeding : Seeding σ) (V : Values) : Prop where
  asked : f.Asked token start seeding.world.feed
  opened : seeding.world.caches.open? handle = some V
  fresh : ∀ spec ∉ seeding.seeded, V.get? spec = none
  answered : ∀ spec p, V.get? spec = some p → Answered f token start wanted spec p

theorem seed_ok {start : σ} {wanted : List Requirement} (rest : List Requirement)
    (hsub : ∀ r ∈ rest, r ∈ wanted) {seeding : Seeding σ} {V : Values}
    (h : Seeded f token start wanted handle seeding V) :
    ∃ seeding' V', seed f token handle rest seeding = (.ok (), seeding') ∧
      Seeded f token start wanted handle seeding' V' := by
  induction rest generalizing seeding V with
  | nil => exact ⟨seeding, V, rfl, h⟩
  | cons r rest ih =>
    obtain ⟨hr, hrest⟩ := List.forall_mem_cons.1 hsub
    rw [seed]
    split_ifs with hseeded
    · exact ih hrest h
    · have hasked := h.asked.query r
      simp only
      split
      · next p hanswer =>
        obtain ⟨caches, hwrite, hopen, -, -⟩ :=
          CacheStore.write_of_open h.opened (v := ⟨r.resolve, p⟩) (h.fresh _ hseeded)
        rw [hwrite]
        refine ih hrest ⟨hasked, hopen, ?_, ?_⟩
        · intro spec hspec
          rw [List.mem_cons, not_or] at hspec
          rw [SortedMap.get?_insert, if_neg hspec.1, h.fresh spec hspec.2]
        · intro spec p' hp
          rw [SortedMap.get?_insert] at hp
          split_ifs at hp with he
          · cases hp
            exact ⟨r, hr, he.symm, _, h.asked, hanswer⟩
          · exact h.answered spec p' hp
      · exact ih hrest ⟨hasked, h.opened, h.fresh, h.answered⟩

/-- The session `s'` comes from `s` by preparing the inputs from the state `start` of the feed on. -/
structure Prepared (f : Feed σ) (token : Token) (start : σ) (s s' : Session σ) (handle : CacheHandle)
    (V : Values) : Prop where
  stage : s'.cycle.stage = .inputsPrepared
  snapshot : s'.cycle.snapshot = some token
  cache : s'.cycle.cache = some handle
  view : s'.cycle.view = s.cycle.view
  model : s'.cycle.model = s.cycle.model
  tracker : s'.cycle.tracker = s.cycle.tracker
  cancelled : s'.cycle.cancelled = s.cycle.cancelled
  calls : s'.cycle.calls = s.cycle.calls
  asked : f.Asked token start s'.world.feed
  opened : s'.world.caches.open? handle = some V
  answered : ∀ spec p, V.get? spec = some p →
    Answered f token start s.cycle.model.liveData.elements spec p

theorem prepare_ok {c : Context σ} {now : Int} {s : Session σ} {start : σ} (hnew : s.cycle.stage = .created)
    (hsnapshot : c.feed.snapshot s.world.feed now = (.ok token, start))
    (hcache : s.world.caches.find? s.cycle.view token = none) :
    ∃ s' handle V, s.prepare c now = (.ok (), s') ∧ Prepared c.feed token start s s' handle V := by
  have hexpect : s.cycle.expect .prepareInputs = .ok () := by
    simp [Cycle.expect, hnew, Operation.allowed]
  have hstart : Seeded c.feed token start s.cycle.model.liveData.elements
      (s.world.caches.acquire s.cycle.view token).1
      { world := ⟨start, (s.world.caches.acquire s.cycle.view token).2⟩ } .empty :=
    ⟨.none, CacheStore.open?_acquire hcache, fun _ _ => rfl, by simp⟩
  obtain ⟨seeding, V, hseed, hseeded⟩ := seed_ok _ (fun _ h => h) hstart
  have hprepare : s.prepare c now = (.ok (),
      { world := seeding.world
        cycle := { s.cycle with
          stage := .inputsPrepared
          snapshot := some token
          cache := some (s.world.caches.acquire s.cycle.view token).1
          missing := seeding.missing
          results := { s.cycle.results with inputsAt := some token, cycleId := some s.cycle.id }
          stats := { s.cycle.stats with
            liveDataRequested := s.cycle.model.liveData.size
            missingLiveData := seeding.missing.size } } }) := by
    unfold prepare
    simp only [hexpect, hsnapshot, acquire, seedAll]
    rw [hseed]
  exact ⟨_, _, V, hprepare, rfl, rfl, rfl, rfl, rfl, rfl, rfl, rfl, hseeded.asked, hseeded.opened,
    hseeded.answered⟩

end Session

end CalcCycle
