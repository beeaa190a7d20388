import CalcCycle.Proofs.Execution.Progress
import CalcCycle.Proofs.Execution.Reference

/-! What one node does to a cache. Its values are checked before the first of them is written, but only
against its own declaration: where the cache holds a value for one of them already, the writing ends
there, and what has been written before stays. In every other case the cache gains all values of the
node or none. -/

namespace CalcCycle

namespace CacheStore

/-- From `s`, where the cache had the values `V`, it has gained the values of the list, under
specifications that were free. Other caches are as they were. -/
structure Gains (h : CacheHandle) (V : Values) (vs : List Computed) (s s' : CacheStore) : Prop where
  free : ∀ v ∈ vs, V.get? v.specification = none
  opened : ∃ V', s'.open? h = some V' ∧ ∀ spec, V'.get? spec = (valueIn vs spec).or (V.get? spec)
  others : ∀ k, k ≠ h → s'.get? k = s.get? k
  registered : s'.registered = s.registered

variable {s s' : CacheStore} {h : CacheHandle} {V : Values} {v : Computed} {done : List Computed}

theorem Gains.none (ho : s.open? h = some V) : s.Gains h V [] s :=
  ⟨List.forall_mem_nil _, ⟨V, ho, fun _ => rfl⟩, fun _ _ => rfl, rfl⟩

theorem write_of_stored {p : Payload} (ho : s.open? h = some V) (hv : V.get? v.specification = some p) :
    s.write h v = .error (.duplicateValue v.specification) := by
  obtain ⟨c, hc, hr, rfl⟩ := open?_eq_some_iff.1 ho
  simp only [write, hc, Cache.put, Cache.ensureLive, hr, SortedMap.contains, hv]
  rfl

/-- One value more is gained if it can be written. -/
theorem Gains.write {s₀ : CacheStore} (hg : s₀.Gains h V done s)
    (hnew : ∀ u ∈ done, u.specification ≠ v.specification) (hw : s.write h v = .ok s') :
    s₀.Gains h V (done ++ [v]) s' := by
  obtain ⟨V', ho, hV'⟩ := hg.opened
  have hsame : V'.get? v.specification = V.get? v.specification := by
    rw [hV', valueIn_eq_none hnew, Option.none_or]
  cases hv : V'.get? v.specification with
  | some p =>
    rw [write_of_stored ho hv] at hw
    cases hw
  | none =>
    obtain ⟨s₁, hwritten, hopen, hothers, hregistered⟩ := write_of_open ho hv
    rw [hwritten] at hw
    cases hw
    refine ⟨?_, ⟨_, hopen, fun spec => ?_⟩, ?_, hregistered.trans hg.registered⟩
    · intro u hu
      rcases List.mem_append.1 hu with hu | hu
      · exact hg.free u hu
      · rw [List.mem_singleton.1 hu, ← hsame, hv]
    · rw [SortedMap.get?_insert]
      by_cases he : spec = v.specification
      · rw [if_pos he, he, valueIn_concat_self hnew]
        rfl
      · rw [if_neg he, valueIn_concat_of_ne he, hV']
    · exact fun k hk => (hothers k hk).trans (hg.others k hk)

/-- A value that is refused has been there before. -/
theorem Gains.refused {s₀ : CacheStore} {e : CacheError} (hg : s₀.Gains h V done s)
    (hnew : ∀ u ∈ done, u.specification ≠ v.specification) (hw : s.write h v = .error e) :
    e = .duplicateValue v.specification ∧ (V.get? v.specification).isSome = true := by
  obtain ⟨V', ho, hV'⟩ := hg.opened
  have hsame : V'.get? v.specification = V.get? v.specification := by
    rw [hV', valueIn_eq_none hnew, Option.none_or]
  rw [← hsame]
  cases hv : V'.get? v.specification with
  | some p =>
    rw [write_of_stored ho hv] at hw
    cases hw
    exact ⟨rfl, rfl⟩
  | none =>
    obtain ⟨s₁, hwritten, -⟩ := write_of_open ho hv
    rw [hwritten] at hw
    cases hw

end CacheStore

/-- What an interrupt does to the caches. -/
def Interrupt.onCaches (w : RunSetting) (caches : CacheStore) : Interrupt → CacheStore
  | .cancelCycle => caches
  | .releaseCache => (caches.release w.view w.token).2

namespace Interrupt
variable {w : RunSetting} {caches : CacheStore} {h : CacheHandle}

theorem caches_foldl (w : RunSetting) (l : List Interrupt) (s : RunState) :
    (l.foldl (RunState.interrupt w) s).caches = l.foldl (onCaches w) s.caches := by
  induction l generalizing s with
  | nil => rfl
  | cons i rest ih =>
    rw [List.foldl_cons, List.foldl_cons, ih]
    cases i <;> rfl

/-- No interrupt opens a cache. -/
theorem open_of_onCaches {l : List Interrupt} {V : Values} (ho : (l.foldl (onCaches w) caches).open? h = some V) :
    caches.open? h = some V := by
  induction l generalizing caches with
  | nil => exact ho
  | cons i rest ih =>
    have hrest := ih ho
    cases i with
    | cancelCycle => exact hrest
    | releaseCache => exact CacheStore.open_of_release hrest

end Interrupt

namespace Job

end Job

namespace Node

/-- What the calculation answers when it is called on the inputs that the values have. -/
def reply (n : Node) (w : RunSetting) (job : Nat) (V : Values) : Reply :=
  n.calculation.call ⟨w.view, w.token, job⟩ n.target (V.gather n.inputs)

/-- The caches as a call of the calculation leaves them: it may close caches on its own account. -/
def leaves (n : Node) (w : RunSetting) (job : Nat) (V : Values) (caches : CacheStore) : CacheStore :=
  (n.reply w job V).interrupts.foldl (Interrupt.onCaches w) caches

/-- All inputs are there, and the calculation answers with values that pass the check. -/
structure Given (n : Node) (w : RunSetting) (job : Nat) (V : Values) (vs : List Computed) : Prop where
  present : V.absent n.inputs = []
  answer : (n.reply w job V).outcome = .values vs
  valid : Job.validate n vs = .ok ()

/-- The node has not written anything. -/
def Kept (n : Node) (w : RunSetting) (job : Nat) (V : Values) (before after : CacheStore) : Prop :=
  after = before ∨ V.absent n.inputs = [] ∧ after = n.leaves w job V before

/-- How a run of the node ends and what it has done to the caches. -/
inductive Commits (n : Node) (w : RunSetting) (job : Nat) (V : Values) (before after : CacheStore) :
    Except Failure NodeState → Prop
  | executed {vs} (given : n.Given w job V vs)
    (gains : (n.leaves w job V before).Gains w.cache V vs after) : Commits n w job V before after (.ok .executed)
  | failed (kept : n.Kept w job V before after) : Commits n w job V before after (.ok .failed)
  | brokenOff {e} (kept : n.Kept w job V before after) : Commits n w job V before after (.error e)
  | clash {done v rest} (given : n.Given w job V (done ++ v :: rest))
    (taken : (V.get? v.specification).isSome = true)
    (gains : (n.leaves w job V before).Gains w.cache V done after) :
    Commits n w job V before after (.error (.cache (.duplicateValue v.specification)))

/-- A value to be written is another than those that have been. -/
theorem Given.next {n : Node} {w : RunSetting} {job : Nat} {V : Values} {done rest : List Computed} {v : Computed}
    (h : n.Given w job V (done ++ v :: rest)) : ∀ u ∈ done, u.specification ≠ v.specification := by
  have hnodup := (Job.validate_ok h.valid).2
  rw [List.map_append, List.map_cons, List.nodup_append] at hnodup
  exact fun u hu => hnodup.2.2 _ (List.mem_map_of_mem hu) _ List.mem_cons_self

end Node

/-- What a job of the node has done to the caches so far, if nobody else has done anything. -/
def Phase.Commits (n : Node) (w : RunSetting) (job : Nat) (V : Values) (before : CacheStore) (s : RunState) :
    Phase → Prop
  | .queued => s.caches = before
  | .begun => s.tracker.state? n.id = some .executing ∧ s.caches = before
  | .reading rest inputs missing =>
    s.tracker.state? n.id = some .executing ∧ s.caches = before ∧
      ∃ done, n.inputs = done ++ rest ∧ inputs = V.gather done ∧ missing = V.absent done
  | .ready inputs =>
    s.tracker.state? n.id = some .executing ∧ s.caches = before ∧
      V.absent n.inputs = [] ∧ inputs = V.gather n.inputs
  | .writing rest =>
    s.tracker.state? n.id = some .executing ∧ ∃ done, n.Given w job V (done ++ rest) ∧
      ((n.leaves w job V before).Gains w.cache V done s.caches ∨
        -- the calculation has closed the cache itself
        done = [] ∧ s.caches = n.leaves w job V before ∧ s.caches.open? w.cache = none)
  | .failing _ => s.tracker.state? n.id = some .executing ∧ n.Kept w job V before s.caches
  | .settled st => n.Commits w job V before s.caches (.ok st)
  | .finished outcome => n.Commits w job V before s.caches outcome

namespace Job
variable {w : RunSetting} {s s' : RunState} {j : Job} {p : Phase} {V : Values} {before : CacheStore}

def forward : Specification := { name := "Forward", target := .primitive "USD" }

end Job

end CalcCycle
