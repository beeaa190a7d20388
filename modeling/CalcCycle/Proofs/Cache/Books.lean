import CalcCycle.Proofs.Cache.Label
import CalcCycle.Proofs.Sorted
import Mathlib.Data.List.Nodup

/-! What a store of caches has after any calls, by what was called. A cache is open from the call that first asks for
its view and snapshot to the one that releases it. It has what was put into it first under each specification. -/

namespace CalcCycle

/-! ### One cache -/

namespace Cache
variable {c : Cache} {v : Computed} {spec : Specification}

theorem get_of_live (h : c.isReleased = false) (spec : Specification) :
    c.get spec = .ok ((c.values.get? spec).map fun p => ⟨spec, p⟩) := by
  simp only [Cache.get, Cache.ensureLive, h]
  rfl

theorem live_of_get {found : Option Computed} (h : c.get spec = .ok found) : c.isReleased = false := by
  cases hr : c.isReleased with
  | false => rfl
  | true =>
    simp only [Cache.get, Cache.ensureLive, hr, if_true] at h
    cases h

theorem contains_of_get {found : Option Computed} (h : c.get spec = .ok found) :
    c.contains spec = .ok found.isSome := by
  have hlive := live_of_get h
  rw [get_of_live hlive, Except.ok.injEq] at h
  rw [← h, Option.isSome_map]
  simp only [Cache.contains, Cache.ensureLive, hlive]
  rfl

/-- What has not been put before is found after it was put, with all that was found before. -/
theorem put_new (h : c.get v.specification = .ok none) :
    ∃ c', c.put v = .ok c' ∧ ∀ spec, c'.get spec = if v.specification = spec then .ok (some v) else c.get spec := by
  have hlive := live_of_get h
  rw [get_of_live hlive, Except.ok.injEq, Option.map_eq_none_iff] at h
  have hwritten := get_of_live (c := { c with values := c.values.insert v.specification v.payload }) hlive
  refine ⟨{ c with values := c.values.insert v.specification v.payload }, ?_, fun spec => ?_⟩
  · simp only [Cache.put, Cache.ensureLive, hlive, SortedMap.contains, h]
    rfl
  · rw [hwritten, get_of_live hlive, SortedMap.get?_insert]
    by_cases hs : v.specification = spec
    · subst hs
      simp
    · simp [hs, Ne.symm hs]

theorem put_again {w : Computed} (h : c.get v.specification = .ok (some w)) :
    c.put v = .error (.duplicateValue v.specification) := by
  have hlive := live_of_get h
  rw [get_of_live hlive, Except.ok.injEq, Option.map_eq_some_iff] at h
  obtain ⟨p, hp, -⟩ := h
  simp only [Cache.put, Cache.ensureLive, hlive, SortedMap.contains, hp]
  rfl

/-- A released cache refuses every access. -/
theorem released_refuses (h : c.isReleased = true) :
    (∀ v, c.put v = .error (.released c.view c.token)) ∧ ∀ spec, c.get spec = .error (.released c.view c.token) ∧
      c.contains spec = .error (.released c.view c.token) := by
  refine ⟨fun v => ?_, fun spec => ⟨?_, ?_⟩⟩
  · simp only [Cache.put, Cache.ensureLive, h, if_true]
    rfl
  · simp only [Cache.get, Cache.ensureLive, h, if_true]
    rfl
  · simp only [Cache.contains, Cache.ensureLive, h, if_true]
    rfl

end Cache

/-! ### Calls -/

/-- A call to the store of caches, or to a cache, with its answer. -/
inductive CacheEvent
  | acquired (view : String) (token : Token) (h : CacheHandle)
  | released (view : String) (token : Token) (done : Bool)
  | put (h : CacheHandle) (v : Computed) (answer : Except CacheError Unit)
  | got (h : CacheHandle) (spec : Specification) (answer : Except CacheError (Option Computed))
  | asked (h : CacheHandle) (spec : Specification) (answer : Except CacheError Bool)

namespace CacheEvent

/-- The handle that the call is made with. -/
def handle? : CacheEvent → Option CacheHandle
  | .put h .. | .got h .. | .asked h .. => some h
  | _ => none

/-- The value that the call is to put into the cache under the specification. -/
def put? (h : CacheHandle) (spec : Specification) : CacheEvent → Option Computed
  | .put k v _ => if k = h ∧ v.specification = spec then some v else none
  | _ => none

theorem put?_eq_none {e : CacheEvent} {h : CacheHandle} {spec : Specification} (hne : h ∉ e.handle?) :
    e.put? h spec = none := by
  cases e with
  | put k v answer => exact if_neg fun hk => hne (congrArg some hk.1)
  | _ => rfl

end CacheEvent

namespace CacheStore

inductive Step (s : CacheStore) : CacheEvent → CacheStore → Prop
  | acquire (view : String) (token : Token) :
    Step s (.acquired view token (s.acquire view token).1) (s.acquire view token).2
  | release (view : String) (token : Token) :
    Step s (.released view token (s.release view token).1) (s.release view token).2
  | put {h v s'} (done : s.write h v = .ok s') : Step s (.put h v (.ok ())) s'
  | refuse {h v e} (refused : s.write h v = .error e) : Step s (.put h v (.error e)) s
  | get (h : CacheHandle) (spec : Specification) : Step s (.got h spec (s.read h spec)) s
  | contains {h c} (cache : s.get? h = some c) (spec : Specification) : Step s (.asked h spec (c.contains spec)) s

theorem get?_acquire_new {s : CacheStore} {view : String} {token : Token} (hnone : s.find? view token = none)
    (k : CacheHandle) : (s.acquire view token).2.get? k =
      if k = ⟨s.caches.length⟩ then some { view, token } else s.get? k := by
  have hget : (s.acquire view token).2.get? k = (s.caches ++ [({ view, token } : Cache)])[k.index]? := by
    simp [acquire, standalone, hnone, get?]
  rw [hget]
  split_ifs with hk
  · simp [hk]
  · have hne : k.index ≠ s.caches.length := fun he => hk (by cases k; simp_all)
    rcases Nat.lt_or_gt_of_ne hne with hlt | hgt
    · exact List.getElem?_append_left hlt
    · rw [List.getElem?_eq_none (by simp; omega), get?, List.getElem?_eq_none (by omega)]

theorem release_found {s : CacheStore} {view : String} {token : Token} {h : CacheHandle} {c : Cache}
    (hfound : s.find? view token = some h) (hc : s.get? h = some c) : s.release view token =
      (true, { s.update h c.release with registered := s.registered.filter (·.1 != (view, token)) }) := by
  simp [release, hfound, hc, update]

end CacheStore

namespace CacheHistory

def Obtained (log : List CacheEvent) (h : CacheHandle) : Prop := ∃ view token, .acquired view token h ∈ log

/-- The handle was obtained for the view and the snapshot, which have not been released since. -/
def Live (log : List CacheEvent) (view : String) (token : Token) (h : CacheHandle) : Prop :=
  ∃ before after, log = before ++ .acquired view token h :: after ∧ .released view token true ∉ after

/-- The handle was obtained for the view and the snapshot, which have been released since. -/
def Stale (log : List CacheEvent) (view : String) (token : Token) (h : CacheHandle) : Prop :=
  ∃ before after, log = before ++ .acquired view token h :: after ∧ .released view token true ∈ after

/-- The value that was put first into the cache under the specification. -/
def firstPut (log : List CacheEvent) (h : CacheHandle) (spec : Specification) : Option Computed :=
  log.findSome? (·.put? h spec)

variable {log : List CacheEvent} {s s' : CacheStore} {e : CacheEvent} {view : String} {token : Token}
  {h : CacheHandle} {spec : Specification}

/-- A split of a list with one more element is at that element, or is one of the list. -/
theorem exists_split_concat {α : Type} {P : List α → Prop} {l : List α} {a x : α} :
    (∃ before after, l ++ [a] = before ++ x :: after ∧ P after) ↔
      (a = x ∧ P []) ∨ ∃ before after, l = before ++ x :: after ∧ P (after ++ [a]) := by
  constructor
  · rintro ⟨before, after, hsplit, hP⟩
    rcases after.eq_nil_or_concat with rfl | ⟨after, b, rfl⟩
    · obtain ⟨-, hx⟩ := List.append_inj' hsplit rfl
      exact Or.inl ⟨(List.cons.inj hx).1, hP⟩
    · rw [List.concat_eq_append, ← List.cons_append, ← List.append_assoc] at hsplit
      obtain ⟨hl, hb⟩ := List.append_inj' hsplit rfl
      obtain rfl := (List.cons.inj hb).1
      exact Or.inr ⟨before, after, hl, List.concat_eq_append ▸ hP⟩
  · rintro (⟨rfl, hP⟩ | ⟨before, after, rfl, hP⟩)
    · exact ⟨l, [], rfl, hP⟩
    · exact ⟨before, after ++ [a], by simp, hP⟩

theorem live_concat : Live (log ++ [e]) view token h ↔
    e = .acquired view token h ∨ Live log view token h ∧ e ≠ .released view token true := by
  unfold Live
  rw [exists_split_concat]
  simp only [List.mem_append, List.mem_singleton, not_or, List.not_mem_nil, not_false_eq_true, and_true, ← and_assoc,
    exists_and_right, ne_eq, eq_comm (a := e) (b := CacheEvent.released _ _ _)]

theorem stale_concat : Stale (log ++ [e]) view token h ↔
    Stale log view token h ∨ .acquired view token h ∈ log ∧ e = .released view token true := by
  unfold Stale
  rw [exists_split_concat]
  constructor
  · rintro (⟨-, hnil⟩ | ⟨before, after, rfl, hreleased⟩)
    · cases hnil
    · rcases List.mem_append.1 hreleased with hmem | he
      · exact Or.inl ⟨before, after, rfl, hmem⟩
      · exact Or.inr ⟨by simp, (List.mem_singleton.1 he).symm⟩
  · rintro (⟨before, after, rfl, hreleased⟩ | ⟨hacquired, rfl⟩)
    · exact Or.inr ⟨before, after, rfl, List.mem_append_left _ hreleased⟩
    · obtain ⟨before, after, rfl⟩ := List.append_of_mem hacquired
      exact Or.inr ⟨before, after, rfl, by simp⟩

theorem obtained_concat : Obtained (log ++ [e]) h ↔ Obtained log h ∨ ∃ view token, e = .acquired view token h := by
  simp only [Obtained, List.mem_append, List.mem_singleton, exists_or, eq_comm (a := e)]

theorem firstPut_concat : firstPut (log ++ [e]) h spec = (firstPut log h spec).or (e.put? h spec) := by
  simp [firstPut, List.findSome?_append]

theorem live_or_stale (h' : .acquired view token h ∈ log) : Live log view token h ∨ Stale log view token h := by
  obtain ⟨before, after, hsplit⟩ := List.append_of_mem h'
  by_cases hreleased : CacheEvent.released view token true ∈ after
  · exact Or.inr ⟨before, after, hsplit, hreleased⟩
  · exact Or.inl ⟨before, after, hsplit, hreleased⟩

theorem Live.acquired (hl : Live log view token h) : .acquired view token h ∈ log := by
  obtain ⟨before, after, rfl, -⟩ := hl
  simp

theorem Stale.acquired (hs : Stale log view token h) : .acquired view token h ∈ log := by
  obtain ⟨before, after, rfl, -⟩ := hs
  simp

/-! ### The books of the store -/

/-- The store has the caches that the calls have opened and closed, with the values that were put. -/
structure Books (log : List CacheEvent) (s : CacheStore) : Prop where
  keys : (s.registered.map (·.1)).Nodup
  registered : ∀ view token h, ((view, token), h) ∈ s.registered ↔ Live log view token h
  live : ∀ view token h, Live log view token h →
    ∃ c, s.get? h = some c ∧ c.label = (view, token) ∧ ∀ spec, c.get spec = .ok (firstPut log h spec)
  stale : ∀ view token h, Stale log view token h →
    s.get? h = some { view, token, values := .empty, isReleased := true }
  unput : ∀ h, ¬ Obtained log h → ∀ spec, firstPut log h spec = none

namespace Books

theorem empty : Books [] .empty where
  keys := .nil
  registered view token h := by simp [CacheStore.empty, Live]
  live view token h hl := by simp [Live] at hl
  stale view token h hs := by simp [Stale] at hs
  unput _ _ _ := rfl

theorem label? (hb : Books log s) (h' : .acquired view token h ∈ log) : s.label? h = some (view, token) := by
  rcases live_or_stale h' with hl | hs
  · obtain ⟨c, hc, hlabel, -⟩ := hb.live _ _ _ hl
    exact CacheStore.label?_eq_some_iff.2 ⟨c, hc, hlabel⟩
  · exact CacheStore.label?_eq_some_iff.2 ⟨_, hb.stale _ _ _ hs, rfl⟩

/-- A handle is obtained for one view and one snapshot only. -/
theorem pair_unique (hb : Books log s) {view' : String} {token' : Token} (h₁ : .acquired view token h ∈ log)
    (h₂ : .acquired view' token' h ∈ log) : view = view' ∧ token = token' := by
  have hsame := (hb.label? h₁).symm.trans (hb.label? h₂)
  exact Prod.mk.inj (Option.some.inj hsame)

theorem not_stale (hb : Books log s) {view' : String} {token' : Token} (hl : Live log view token h) :
    ¬ Stale log view' token' h := by
  intro hs
  obtain ⟨c, hc, -, hget⟩ := hb.live _ _ _ hl
  have hclosed := hb.stale _ _ _ hs
  rw [hc, Option.some.injEq] at hclosed
  have hopen := Cache.live_of_get (hget default)
  rw [hclosed] at hopen
  cases hopen

theorem lt_of_obtained (hb : Books log s) (ho : Obtained log h) : h.index < s.caches.length := by
  obtain ⟨view, token, hmem⟩ := ho
  obtain ⟨c, hc, -⟩ := CacheStore.label?_eq_some_iff.1 (hb.label? hmem)
  exact (List.getElem?_eq_some_iff.1 hc).1

theorem live_unique (hb : Books log s) {k : CacheHandle} (hl : Live log view token h) (hk : Live log view token k) :
    h = k := by
  have hsame := List.inj_on_of_nodup_map hb.keys ((hb.registered _ _ _).2 hl) ((hb.registered _ _ _).2 hk) rfl
  exact (Prod.mk.inj hsame).2

theorem find?_eq_some_iff (hb : Books log s) : s.find? view token = some h ↔ Live log view token h := by
  rw [← hb.registered]
  unfold CacheStore.find?
  constructor
  · intro hfound
    obtain ⟨front, back, hsplit, -⟩ := List.lookup_eq_some_iff.1 hfound
    simp [hsplit]
  · intro hmem
    obtain ⟨front, back, hsplit⟩ := List.append_of_mem hmem
    refine List.lookup_eq_some_iff.2 ⟨front, back, hsplit, fun e he => ?_⟩
    have hkeys := hb.keys
    rw [hsplit, List.map_append, List.map_cons] at hkeys
    have hne := (List.nodup_append.1 hkeys).2.2 _ (List.mem_map_of_mem he) _ List.mem_cons_self
    simpa using Ne.symm hne

theorem find?_eq_none_iff (hb : Books log s) : s.find? view token = none ↔ ∀ h, ¬ Live log view token h := by
  rw [Option.eq_none_iff_forall_ne_some]
  simp only [ne_eq, hb.find?_eq_some_iff]

/-- A call that leaves the store as it is opens and closes no cache, and puts no first value. -/
theorem unchanged (hb : Books log s) (hopens : ∀ view token h, e = .acquired view token h → Live log view token h)
    (hcloses : ∀ view token, e ≠ .released view token true)
    (hputs : ∀ view token h, Live log view token h → ∀ spec, e.put? h spec ≠ none → firstPut log h spec ≠ none)
    (hknown : ∀ h ∈ e.handle?, Obtained log h) : Books (log ++ [e]) s := by
  have hlive : ∀ view token h, Live (log ++ [e]) view token h ↔ Live log view token h := by
    intro view token h
    rw [live_concat]
    exact ⟨fun hor => hor.elim (hopens view token h) And.left, fun hl => Or.inr ⟨hl, hcloses view token⟩⟩
  refine
    { keys := hb.keys
      registered := fun view token h => (hb.registered view token h).trans (hlive view token h).symm
      live := fun view token h hl => ?_
      stale := fun view token h hs => ?_
      unput := fun h hnot spec => ?_ }
  · have hl := (hlive view token h).1 hl
    obtain ⟨c, hc, hlabel, hget⟩ := hb.live view token h hl
    refine ⟨c, hc, hlabel, fun spec => ?_⟩
    rw [hget, firstPut_concat]
    cases hfirst : firstPut log h spec with
    | some v => rfl
    | none =>
      have hnone : e.put? h spec = none := by
        by_contra hne
        exact hputs view token h hl spec hne hfirst
      rw [hnone]
      rfl
  · exact hb.stale view token h ((stale_concat.1 hs).resolve_right fun ⟨_, he⟩ => hcloses view token he)
  · rw [obtained_concat, not_or] at hnot
    rw [firstPut_concat, hb.unput h hnot.1]
    exact CacheEvent.put?_eq_none fun hk => hnot.1 (hknown h hk)

/-- A call that concerns the cache with the handle `k` leaves the books of all others as they are. -/
theorem touched (hb : Books log s) {k : CacheHandle} (hk : Obtained (log ++ [e]) k)
    (hopens : ∀ view token h, e = .acquired view token h → h = k)
    (hcloses : ∀ view token h, e = .released view token true → Live log view token h → h = k)
    (hputs : ∀ h ∈ e.handle?, h = k) (hget : ∀ h, h ≠ k → s'.get? h = s.get? h)
    (keys : (s'.registered.map (·.1)).Nodup)
    (registered : ∀ view token h, ((view, token), h) ∈ s'.registered ↔ Live (log ++ [e]) view token h)
    (live : ∀ view token, Live (log ++ [e]) view token k →
      ∃ c, s'.get? k = some c ∧ c.label = (view, token) ∧ ∀ spec, c.get spec = .ok (firstPut (log ++ [e]) k spec))
    (stale : ∀ view token, Stale (log ++ [e]) view token k →
      s'.get? k = some { view, token, values := .empty, isReleased := true }) : Books (log ++ [e]) s' := by
  have hfirst : ∀ {h}, h ≠ k → ∀ spec, firstPut (log ++ [e]) h spec = firstPut log h spec := by
    intro h hne spec
    rw [firstPut_concat, CacheEvent.put?_eq_none fun hh => hne (hputs h hh), Option.or_none]
  refine
    { keys := keys
      registered := registered
      live := fun view token h hl => ?_
      stale := fun view token h hs => ?_
      unput := fun h hnot spec => ?_ }
  · by_cases hne : h = k
    · subst hne
      exact live view token hl
    · have hl := ((live_concat.1 hl).resolve_left fun he => hne (hopens _ _ _ he)).1
      obtain ⟨c, hc, hlabel, hvalues⟩ := hb.live view token h hl
      exact ⟨c, (hget h hne).trans hc, hlabel, fun spec => (hfirst hne spec).symm ▸ hvalues spec⟩
  · by_cases hne : h = k
    · subst hne
      exact stale view token hs
    · rw [hget h hne]
      rcases stale_concat.1 hs with hs | ⟨hmem, he⟩
      · exact hb.stale view token h hs
      · have hs := (live_or_stale hmem).resolve_left fun hl => hne (hcloses view token h he hl)
        exact hb.stale view token h hs
  · have hne : h ≠ k := fun he => hnot (he ▸ hk)
    rw [hfirst hne]
    exact hb.unput h (fun ho => hnot (obtained_concat.2 (Or.inl ho))) spec

/-- A cache that is opened has a handle that was not obtained before, and nothing has been put into it. -/
theorem opened (hb : Books log s) (hnone : s.find? view token = none) :
    Books (log ++ [.acquired view token (s.acquire view token).1]) (s.acquire view token).2 := by
  have hregistered : (s.acquire view token).2.registered = s.registered ++ [((view, token), ⟨s.caches.length⟩)] := by
    simp [CacheStore.acquire, CacheStore.standalone, hnone]
  have hget := CacheStore.get?_acquire_new hnone
  rw [(CacheStore.acquire_new hnone).1]
  set k : CacheHandle := ⟨s.caches.length⟩
  have hunknown : ¬ Obtained log k := fun ho => Nat.lt_irrefl _ (hb.lt_of_obtained ho)
  refine hb.touched (k := k) ⟨view, token, by simp⟩ ?_ (by rintro _ _ _ ⟨⟩) (by rintro _ ⟨⟩)
    (fun h hne => (hget h).trans (if_neg hne)) ?_ ?_ ?_ ?_
  · rintro _ _ _ ⟨⟩
    rfl
  · rw [hregistered, List.map_append, List.nodup_append]
    refine ⟨hb.keys, List.nodup_singleton _, fun a ha b hb' => ?_⟩
    rintro rfl
    obtain ⟨⟨pair, h⟩, hmem, rfl⟩ := List.mem_map.1 ha
    cases List.mem_singleton.1 hb'
    exact (hb.find?_eq_none_iff.1 hnone) h ((hb.registered _ _ _).1 hmem)
  · intro view' token' h
    rw [hregistered, List.mem_append, List.mem_singleton, hb.registered, live_concat]
    simp only [Prod.mk.injEq, CacheEvent.acquired.injEq, ne_eq, reduceCtorEq, not_false_eq_true, and_true]
    rw [or_comm, and_assoc]
    simp only [eq_comm]
  · intro view' token' hl
    obtain he | ⟨hl, -⟩ := live_concat.1 hl
    · cases he
      refine ⟨_, (hget k).trans (if_pos rfl), rfl, fun spec => ?_⟩
      rw [firstPut_concat, hb.unput k hunknown]
      rfl
    · exact absurd ⟨_, _, hl.acquired⟩ hunknown
  · intro view' token' hs
    obtain hs | ⟨hmem, -⟩ := stale_concat.1 hs
    · exact absurd ⟨_, _, hs.acquired⟩ hunknown
    · exact absurd ⟨_, _, hmem⟩ hunknown

/-- A release empties the cache that is open for its view and snapshot, and concerns no other one. -/
theorem closed (hb : Books log s) (hl : Live log view token h) :
    Books (log ++ [.released view token true]) (s.release view token).2 := by
  obtain ⟨c, hc, hlabel, -⟩ := hb.live _ _ _ hl
  rw [CacheStore.release_found (hb.find?_eq_some_iff.2 hl) hc]
  have hget := CacheStore.get?_update s c.release hc
  have hlive : ∀ view' token' k, Live (log ++ [.released view token true]) view' token' k ↔
      Live log view' token' k ∧ (view', token') ≠ (view, token) := by
    intro view' token' k
    rw [live_concat]
    simp only [reduceCtorEq, false_or, ne_eq, CacheEvent.released.injEq, and_true, Prod.mk.injEq, eq_comm]
  refine hb.touched (k := h) (obtained_concat.2 (Or.inl ⟨_, _, hl.acquired⟩)) (by rintro _ _ _ ⟨⟩) ?_
    (by rintro _ ⟨⟩) (fun k hne => (hget k).trans (if_neg hne)) (hb.keys.sublist (List.filter_sublist.map _)) ?_ ?_ ?_
  · rintro view' token' k ⟨⟩ hk
    exact hb.live_unique hk hl
  · intro view' token' k
    rw [List.mem_filter, hb.registered, hlive, bne_iff_ne]
  · intro view' token' hk
    obtain ⟨hk, hne⟩ := (hlive _ _ _).1 hk
    obtain ⟨rfl, rfl⟩ := hb.pair_unique hk.acquired hl.acquired
    exact absurd rfl hne
  · intro view' token' hs
    have hmem : .acquired view' token' h ∈ log := (stale_concat.1 hs).elim Stale.acquired And.left
    obtain ⟨rfl, rfl⟩ := hb.pair_unique hmem hl.acquired
    refine (hget h).trans ((if_pos rfl).trans ?_)
    cases c
    cases hlabel
    rfl

/-- A cache into which nothing has been put under a specification takes what is put there. -/
theorem stored (hb : Books log s) {v : Computed} (hl : Live log view token h)
    (hfirst : firstPut log h v.specification = none) :
    ∃ s', s.write h v = .ok s' ∧ Books (log ++ [.put h v (.ok ())]) s' := by
  obtain ⟨c, hc, hlabel, hvalues⟩ := hb.live _ _ _ hl
  obtain ⟨c', hput, hvalues'⟩ := Cache.put_new ((hvalues v.specification).trans (congrArg _ hfirst))
  have hget := CacheStore.get?_update s c' hc
  have hlive : ∀ view' token' k, Live (log ++ [.put h v (.ok ())]) view' token' k ↔ Live log view' token' k := by
    intro view' token' k
    simp [live_concat]
  refine ⟨s.update h c', by simp [CacheStore.write, hc, hput, Except.map], ?_⟩
  refine hb.touched (k := h) (obtained_concat.2 (Or.inl ⟨_, _, hl.acquired⟩)) (by rintro _ _ _ ⟨⟩)
    (by rintro _ _ _ ⟨⟩) ?_ (fun k hne => (hget k).trans (if_neg hne)) hb.keys
    (fun _ _ _ => (hb.registered _ _ _).trans (hlive _ _ _).symm) ?_ ?_
  · rintro k ⟨⟩
    rfl
  · intro view' token' hk
    obtain ⟨rfl, rfl⟩ := hb.pair_unique ((hlive _ _ _).1 hk).acquired hl.acquired
    refine ⟨c', (hget h).trans (if_pos rfl), (Cache.put_label hput).trans hlabel, fun spec => ?_⟩
    rw [hvalues', hvalues, firstPut_concat]
    by_cases hspec : v.specification = spec
    · subst hspec
      simp [hfirst, CacheEvent.put?]
    · simp [hspec, CacheEvent.put?]
  · intro view' token' hs
    obtain hs | ⟨-, he⟩ := stale_concat.1 hs
    · exact absurd hs (hb.not_stale hl)
    · cases he

theorem write_stale (hb : Books log s) (hs : Stale log view token h) (v : Computed) :
    s.write h v = .error (.released view token) := by
  obtain ⟨hput, -⟩ := Cache.released_refuses (c := { view, token, values := .empty, isReleased := true }) rfl
  simp [CacheStore.write, hb.stale _ _ _ hs, hput v, Except.map]

theorem write_again (hb : Books log s) (hl : Live log view token h) {v : Computed}
    (hfirst : firstPut log h v.specification ≠ none) : s.write h v = .error (.duplicateValue v.specification) := by
  obtain ⟨c, hc, -, hvalues⟩ := hb.live _ _ _ hl
  obtain ⟨w, hw⟩ := Option.ne_none_iff_exists'.1 hfirst
  have hput := Cache.put_again ((hvalues v.specification).trans (congrArg _ hw))
  simp [CacheStore.write, hc, hput, Except.map]

theorem acquire_live (hb : Books log s) (hl : Live log view token h) : s.acquire view token = (h, s) := by
  simp [CacheStore.acquire, hb.find?_eq_some_iff.2 hl]

theorem step (hb : Books log s) (hknown : ∀ h ∈ e.handle?, Obtained log h) (hstep : s.Step e s') :
    Books (log ++ [e]) s' := by
  cases hstep with
  | acquire view token =>
    cases hfound : s.find? view token with
    | none => exact hb.opened hfound
    | some h =>
      have hl := hb.find?_eq_some_iff.1 hfound
      rw [hb.acquire_live hl]
      refine hb.unchanged ?_ nofun (fun _ _ _ _ _ hne => absurd rfl hne) nofun
      intro view' token' k he
      cases he
      exact hl
  | release view token =>
    cases hfound : s.find? view token with
    | none =>
      have hnone : s.release view token = (false, s) := by simp [CacheStore.release, hfound]
      rw [hnone]
      exact hb.unchanged nofun nofun (fun _ _ _ _ _ hne => absurd rfl hne) nofun
    | some h =>
      have hl := hb.find?_eq_some_iff.1 hfound
      obtain ⟨c, hc, -⟩ := hb.live _ _ _ hl
      have hdone : (s.release view token).1 = true := by rw [CacheStore.release_found hfound hc]
      rw [hdone]
      exact hb.closed hl
  | @put h v _ done =>
    obtain ⟨view, token, hmem⟩ := hknown h rfl
    rcases live_or_stale hmem with hl | hs
    · cases hfirst : firstPut log h v.specification with
      | none =>
        obtain ⟨next, hwrite, hnext⟩ := hb.stored hl hfirst
        rw [done] at hwrite
        cases hwrite
        exact hnext
      | some w =>
        rw [hb.write_again hl (by simp [hfirst])] at done
        cases done
    · rw [hb.write_stale hs] at done
      cases done
  | @refuse h v reason refused =>
    refine hb.unchanged nofun nofun ?_ hknown
    intro view token k hl spec hne hnone
    obtain ⟨rfl, rfl⟩ : h = k ∧ v.specification = spec := by
      by_contra hnot
      exact hne (if_neg hnot)
    obtain ⟨next, hwrite, -⟩ := hb.stored hl hnone
    rw [refused] at hwrite
    cases hwrite
  | get h spec => exact hb.unchanged nofun nofun (fun _ _ _ _ _ hne => absurd rfl hne) hknown
  | contains cache spec => exact hb.unchanged nofun nofun (fun _ _ _ _ _ hne => absurd rfl hne) hknown

end Books

end CacheHistory

end CalcCycle
