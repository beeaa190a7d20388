import CalcCycle.Proofs.Cycle.LiveInputs
import CalcCycle.Proofs.Cycle.Requests

/-! Which requirement gives a specification its value, and which are missing. Requirements are put to the
feed in their order; one that resolves like another which was answered before is not put any more. -/

namespace CalcCycle

/-- Under the token the feed answers every query with the content, whatever was asked before. Where there
is none it may say so or fail. -/
def Feed.Serves {σ : Type} (f : Feed σ) (token : Token) (start : σ) (content : Requirement → Option Payload) :
    Prop :=
  ∀ b, f.Asked token start b → ∀ r p, (f.query b token r).1 = .ok (some p) ↔ content r = some p

/-- The requirement is put to the feed: none before it that resolves to the same specification has been
answered. -/
def Requirement.Queried (content : Requirement → Option Payload) (wanted : List Requirement)
    (r : Requirement) : Prop :=
  r ∈ wanted ∧ ∀ q ∈ wanted, q.resolve = r.resolve → compare q r = .lt → content q = none

namespace Session
variable {content : Requirement → Option Payload} {done : List Requirement} {seeded : List Specification}
  {V : Values} {missing : SortedSet Requirement} {r : Requirement} {p : Payload}

/-- What the requirements have left, in a cache that was empty, and of those that are missing. -/
structure Sown (content : Requirement → Option Payload) (done : List Requirement) (seeded : List Specification)
    (V : Values) (missing : SortedSet Requirement) : Prop where
  served : ∀ spec, spec ∈ seeded ↔ ∃ r ∈ done, r.resolve = spec ∧ content r ≠ none
  held : ∀ spec p, V.get? spec = some p ↔
    ∃ r, r.Queried content done ∧ r.resolve = spec ∧ content r = some p
  free : ∀ spec, V.get? spec = none ↔ spec ∉ seeded
  lacking : ∀ r, r ∈ missing ↔ r.Queried content done ∧ content r = none

theorem Sown.nil (content : Requirement → Option Payload) : Sown content [] [] .empty .empty where
  served := by simp
  held := by simp [Requirement.Queried]
  free := by simp
  lacking := by simp [Requirement.Queried, SortedSet.mem_iff, SortedSet.empty]

/-- The last requirement is put to the feed where nothing has been seeded for it. -/
theorem Sown.queried_concat (h : Sown content done seeded V missing) (hlast : ∀ q ∈ done, compare q r = .lt)
    (x : Requirement) :
    x.Queried content (done ++ [r]) ↔ x.Queried content done ∨ (x = r ∧ r.resolve ∉ seeded) := by
  have hself : compare r r ≠ .lt := by simp [Std.ReflCmp.compare_self]
  unfold Requirement.Queried
  constructor
  · rintro ⟨hx, hbefore⟩
    rcases List.mem_append.1 hx with hx | hx
    · exact Or.inl ⟨hx, fun q hq => hbefore q (List.mem_append_left _ hq)⟩
    · obtain rfl := List.mem_singleton.1 hx
      refine Or.inr ⟨rfl, fun hseeded => ?_⟩
      obtain ⟨q, hq, hsame, hanswer⟩ := (h.served _).1 hseeded
      exact hanswer (hbefore q (List.mem_append_left _ hq) hsame (hlast q hq))
  · rintro (⟨hx, hbefore⟩ | ⟨rfl, hnot⟩)
    · refine ⟨List.mem_append_left _ hx, fun q hq hsame hlt => ?_⟩
      rcases List.mem_append.1 hq with hq | hq
      · exact hbefore q hq hsame hlt
      · obtain rfl := List.mem_singleton.1 hq
        exact absurd (Std.TransCmp.lt_trans hlt (hlast x hx)) hself
    · refine ⟨List.mem_append_right _ List.mem_cons_self, fun q hq hsame hlt => ?_⟩
      rcases List.mem_append.1 hq with hq | hq
      · by_contra hanswer
        exact hnot ((h.served _).2 ⟨q, hq, hsame, hanswer⟩)
      · obtain rfl := List.mem_singleton.1 hq
        exact absurd hlt hself

theorem Sown.skip (h : Sown content done seeded V missing) (hlast : ∀ q ∈ done, compare q r = .lt)
    (hseeded : r.resolve ∈ seeded) : Sown content (done ++ [r]) seeded V missing := by
  have hqueried := h.queried_concat hlast
  simp only [hseeded, not_true, and_false, or_false] at hqueried
  refine ⟨fun spec => ?_, fun spec p => ?_, h.free, fun x => ?_⟩
  · rw [h.served]
    constructor
    · rintro ⟨q, hq, hq'⟩
      exact ⟨q, List.mem_append_left _ hq, hq'⟩
    · rintro ⟨q, hq, rfl, hanswer⟩
      rcases List.mem_append.1 hq with hq | hq
      · exact ⟨q, hq, rfl, hanswer⟩
      · obtain rfl := List.mem_singleton.1 hq
        exact (h.served _).1 hseeded
  · simp only [hqueried, h.held]
  · rw [hqueried, h.lacking]

theorem Sown.answer (h : Sown content done seeded V missing) (hlast : ∀ q ∈ done, compare q r = .lt)
    (hnew : r.resolve ∉ seeded) (hanswer : content r = some p) :
    Sown content (done ++ [r]) (r.resolve :: seeded) (V.insert r.resolve p) missing := by
  have hqueried := h.queried_concat hlast
  simp only [hnew, not_false_eq_true, and_true] at hqueried
  refine ⟨fun spec => ?_, fun spec p' => ?_, fun spec => ?_, fun x => ?_⟩
  · simp only [List.mem_cons, h.served, List.mem_append, List.not_mem_nil, or_false, or_and_right, exists_or,
      exists_eq_left, hanswer, ne_eq, reduceCtorEq, not_false_eq_true, and_true]
    rw [or_comm, eq_comm]
  · rw [SortedMap.get?_insert]
    simp only [hqueried, or_and_right, exists_or, exists_eq_left, ← h.held, hanswer, Option.some.injEq]
    split_ifs with hspec
    · have hfree := (h.free _).2 hnew
      simp [hspec, hfree]
    · simp [Ne.symm hspec]
  · rw [SortedMap.get?_insert]
    split_ifs with hspec
    · simp [hspec]
    · simp [hspec, h.free]
  · rw [hqueried, h.lacking, or_and_right, iff_self_or]
    rintro ⟨rfl, hnone⟩
    simp [hanswer] at hnone

theorem Sown.miss (h : Sown content done seeded V missing) (hlast : ∀ q ∈ done, compare q r = .lt)
    (hnew : r.resolve ∉ seeded) (hnone : content r = none) :
    Sown content (done ++ [r]) seeded V (missing.insert r) := by
  have hqueried := h.queried_concat hlast
  simp only [hnew, not_false_eq_true, and_true] at hqueried
  refine ⟨fun spec => ?_, fun spec p' => ?_, h.free, fun x => ?_⟩
  · simp [h.served, or_and_right, exists_or, hnone]
  · simp [hqueried, or_and_right, exists_or, ← h.held, hnone]
  · rw [SortedSet.mem_insert, hqueried, h.lacking, or_and_right, or_comm]
    refine or_congr_right (iff_self_and.2 ?_)
    rintro rfl
    exact hnone

/-- The values and what is missing are determined by the content. -/
theorem Sown.unique {seeded' : List Specification} {V' : Values} {missing' : SortedSet Requirement}
    (h : Sown content done seeded V missing) (h' : Sown content done seeded' V' missing') : V = V' := by
  apply SortedMap.ext_get?
  intro spec
  apply Option.ext
  intro p
  rw [h.held, h'.held]

/-! ### A preparation -/

variable {σ : Type} {f : Feed σ} {token : Token} {start : σ} {handle : CacheHandle}

theorem seed_sown (hf : f.Serves token start content) (done rest : List Requirement)
    (hsorted : (done ++ rest).Pairwise fun q r => compare q r = .lt) {s : Seeding σ}
    (hasked : f.Asked token start s.world.feed) (hopen : s.world.caches.open? handle = some V)
    (h : Sown content done s.seeded V s.missing) :
    ∃ s' V', seed f token handle rest s = (.ok (), s') ∧ f.Asked token start s'.world.feed ∧
      s'.world.caches.open? handle = some V' ∧ Sown content (done ++ rest) s'.seeded V' s'.missing := by
  induction rest generalizing done s V with
  | nil => exact ⟨s, V, rfl, hasked, hopen, by rwa [List.append_nil]⟩
  | cons r rest ih =>
    have hlast : ∀ q ∈ done, compare q r = .lt :=
      fun q hq => (List.pairwise_append.1 hsorted).2.2 q hq r List.mem_cons_self
    rw [List.append_cons] at hsorted ⊢
    by_cases hseeded : r.resolve ∈ s.seeded
    · rw [seed, if_pos hseeded]
      exact ih _ hsorted hasked hopen (h.skip hlast hseeded)
    · rw [seed_cons _ _ _ _ hseeded]
      have hasked' := hasked.query r
      have hserves := hf _ hasked r
      split
      · next p hanswer =>
        have hcontent := (hserves p).1 hanswer
        have hfree := (h.free _).2 hseeded
        obtain ⟨caches, hwrite, hopen', -, -⟩ := CacheStore.write_of_open hopen (v := ⟨r.resolve, p⟩) hfree
        rw [hwrite]
        exact ih _ hsorted hasked' hopen' (h.answer hlast hseeded hcontent)
      · next hnone =>
        have hcontent : content r = none := by
          by_contra hsome
          obtain ⟨p, hp⟩ := Option.ne_none_iff_exists'.1 hsome
          exact hnone p ((hserves p).2 hp)
        exact ih _ hsorted hasked' hopen (h.miss hlast hseeded hcontent)

theorem prepare_sown {c : Context σ} {now : Int} {s : Session σ} (hnew : s.cycle.stage = .created)
    (hsnapshot : c.feed.snapshot s.world.feed now = (.ok token, start))
    (hserves : c.feed.Serves token start content)
    (hfresh : (s.world.caches.acquire s.cycle.view token).2.open?
      (s.world.caches.acquire s.cycle.view token).1 = some .empty) :
    ∃ s' handle V seeded, s.prepare c now = (.ok (), s') ∧ s'.cycle.snapshot = some token ∧
      s'.cycle.cache = some handle ∧ c.feed.Asked token start s'.world.feed ∧
      s'.world.caches.open? handle = some V ∧
      Sown content s.cycle.model.liveData.elements seeded V s'.cycle.missing := by
  obtain ⟨seeding, V, hseed, hasked, hopen, hsown⟩ := seed_sown
    (s := { world := ⟨start, (s.world.caches.acquire s.cycle.view token).2⟩ }) hserves []
    s.cycle.model.liveData.elements s.cycle.model.liveData.increasing .none hfresh (.nil content)
  refine ⟨((s.withFeed start).acquire token).2.prepared seeding, _, V, _, ?_, rfl, rfl, hasked, hopen, hsown⟩
  have hseed' : seed c.feed token ((s.withFeed start).acquire token).1
      ((s.withFeed start).acquire token).2.cycle.model.liveData.elements
      { world := ((s.withFeed start).acquire token).2.world } = (.ok (), seeding) := hseed
  rw [prepare_eq c now hnew, hsnapshot]
  simp only [seedAll, hseed']
  rfl

/-- What the cache holds and what is missing, by requirement. -/
structure FirstAnswers (wanted : SortedSet Requirement) (content : Requirement → Option Payload) (V : Values)
    (missing : SortedSet Requirement) : Prop where
  held : ∀ spec p, V.get? spec = some p ↔
    ∃ r, r.Queried content wanted.elements ∧ r.resolve = spec ∧ content r = some p
  empty : ∀ spec, V.get? spec = none ↔ ∀ r ∈ wanted, r.resolve = spec → content r = none
  /-- A requirement that is missing has been put to the feed without an answer. -/
  unanswered : ∀ r ∈ missing, r.Queried content wanted.elements ∧ content r = none
  /-- A requirement without a value is missing. -/
  lacking : ∀ r ∈ wanted, V.get? r.resolve = none → r ∈ missing
  /-- A requirement that shares its specification with no other has its own answer. -/
  alone : ∀ r ∈ wanted, (∀ q ∈ wanted, q.resolve = r.resolve → q = r) →
    (∀ p, V.get? r.resolve = some p ↔ content r = some p) ∧ (r ∈ missing ↔ V.get? r.resolve = none)

theorem Sown.firstAnswers {wanted : SortedSet Requirement} (h : Sown content wanted.elements seeded V missing) :
    FirstAnswers wanted content V missing := by
  have hempty : ∀ spec, V.get? spec = none ↔ ∀ r ∈ wanted, r.resolve = spec → content r = none := by
    intro spec
    rw [h.free, h.served]
    simp [SortedSet.mem_iff]
  have hlacking : ∀ r ∈ wanted, V.get? r.resolve = none → r ∈ missing := by
    intro r hr hnone
    have hall := (hempty _).1 hnone
    exact (h.lacking r).2 ⟨⟨hr, fun q hq hsame _ => hall q hq hsame⟩, hall r hr rfl⟩
  refine ⟨h.held, hempty, fun r => (h.lacking r).1, hlacking, fun r hr halone => ⟨fun p => ?_, ?_, hlacking r hr⟩⟩
  · rw [h.held]
    constructor
    · rintro ⟨q, hq, hsame, hp⟩
      rwa [← halone q hq.1 hsame]
    · intro hp
      refine ⟨r, ⟨hr, fun q hq hsame hlt => ?_⟩, rfl, hp⟩
      rw [halone q hq hsame] at hlt
      simp [Std.ReflCmp.compare_self] at hlt
  · intro hmissing
    rw [hempty]
    intro q hq hsame
    rw [halone q hq hsame]
    exact ((h.lacking r).1 hmissing).2

/-- In memory a snapshot has the current values. -/
theorem serves_memory (f : MemoryFeed) (now : Int) :
    MemoryFeed.source.Serves (f.takeSnapshot now).1 (f.takeSnapshot now).2 f.current.lookup := by
  intro b hb r p
  rw [asked_memory hb]
  simp [MemoryFeed.source, MemoryFeed.query, MemoryFeed.takeSnapshot, SortedMap.get?_insert]

/-- A new cycle over a feed in memory is prepared, and each specification has the value that the first
requirement has got which resolves to it and has got one. Every requirement without a value is missing, and
what is missing has been put to the feed without an answer. -/
theorem prepare_first_answers (config : Config) (listener : Listener) (pool : WorkerPool)
    (world : World MemoryFeed) (id : Uuid) (view : String) (m : Model) (results : Results) (now : Int)
    (hfresh : (world.caches.acquire view (world.feed.takeSnapshot now).1).2.open?
      (world.caches.acquire view (world.feed.takeSnapshot now).1).1 = some .empty) :
    ∃ s token handle V, prepare { config, feed := MemoryFeed.source, listener, pool } now
        ⟨world, Cycle.create id view m results⟩ = (.ok (), s) ∧
      s.cycle.snapshot = some token ∧ s.cycle.cache = some handle ∧ s.world.caches.open? handle = some V ∧
      (∀ r, s.world.feed.query token r = .ok (world.feed.current.lookup r)) ∧
      FirstAnswers m.liveData world.feed.current.lookup V s.cycle.missing := by
  obtain ⟨s, handle, V, seeded, hprepare, hsnapshot, hcache, hasked, hopen, hsown⟩ :=
    prepare_sown (c := { config, feed := MemoryFeed.source, listener, pool })
      (s := ⟨world, Cycle.create id view m results⟩) rfl rfl (serves_memory world.feed now) hfresh
  refine ⟨s, _, handle, V, hprepare, hsnapshot, hcache, hopen, fun r => ?_, hsown.firstAnswers⟩
  rw [asked_memory hasked]
  simp [MemoryFeed.query, SortedMap.get?_insert]

/-! Two requirements for a curve that resolve to the same one, over a feed that has another, which only the
second accepts. -/

def overlapping : Except GraphError Graph :=
  Graph.ofNodes (.primitive "USD")
    [.make ⟨0⟩ (.primitive "USD") pricer [curve "ESTR"] (pricer.results (.primitive "USD"))]
    [anyCurve ["ESTR", "OIS"], anyCurve ["ESTR", "SOFR"]]

def sofrSession (m : Model) : Session MemoryFeed where
  world := { feed := MemoryFeed.empty.setValue (curve "SOFR") (.text "2") }
  cycle := .create ⟨1⟩ "view" m (.empty "view")

theorem sofr_first_answers :
    ∃ g m s V, overlapping = .ok g ∧ Model.ofGraphs [g] = .ok m ∧
      (sofrSession m).prepare { config := {}, feed := MemoryFeed.source } 7 = (.ok (), s) ∧
      FirstAnswers m.liveData (sofrSession m).world.feed.current.lookup V s.cycle.missing := by
  obtain ⟨g, hg⟩ : ∃ g, overlapping = .ok g := ⟨_, rfl⟩
  obtain ⟨m, hm⟩ : ∃ m, Model.ofGraphs [g] = .ok m := by
    cases hg
    exact ⟨_, rfl⟩
  obtain ⟨s, token, handle, V, hprepare, -, -, -, -, hanswers⟩ :=
    prepare_first_answers {} .silent .single (sofrSession m).world ⟨1⟩ "view" m (.empty "view") 7 rfl
  exact ⟨g, m, s, V, hg, hm, hprepare, hanswers⟩

/-- The first of them counts as missing, and the cache holds for it what the feed has not for it. -/
theorem sofr_held_and_missing :
    ∃ g m s V, overlapping = .ok g ∧ Model.ofGraphs [g] = .ok m ∧
      (sofrSession m).prepare { config := {}, feed := MemoryFeed.source } 7 = (.ok (), s) ∧
      s.cycle.snapshot = some ⟨7⟩ ∧ s.cycle.cache = some ⟨0⟩ ∧ s.world.caches.open? ⟨0⟩ = some V ∧
      anyCurve ["ESTR", "OIS"] ∈ m.liveData ∧ anyCurve ["ESTR", "OIS"] ∈ s.cycle.missing ∧
      s.world.feed.query ⟨7⟩ (anyCurve ["ESTR", "OIS"]) = .ok none ∧
      V.get? (anyCurve ["ESTR", "OIS"]).resolve = some (.text "2") :=
  ⟨_, _, _, _, rfl, rfl, rfl, rfl, rfl, rfl, List.mem_cons_self, List.mem_cons_self, rfl, rfl⟩

end Session

end CalcCycle
