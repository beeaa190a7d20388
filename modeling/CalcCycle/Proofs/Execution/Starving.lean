import CalcCycle.Proofs.Execution.Hearing
import CalcCycle.Proofs.Execution.Provenance

/-! A value that is not at hand and that no node of a graph produces. A job that reads it does not find it,
whatever the calculations answer and whatever else is going on; so the node fails and names the value as
missing, unless the run is broken off. -/

namespace CalcCycle

/-- The node has failed, and the value is one of those it has missed. -/
structure Tracker.Starved (t : Tracker) (spec : Specification) (id : NodeId) : Prop where
  failed : t.state? id = some .failed
  missing : ∃ specs, t.reason? id = some (.missingInputs specs) ∧ spec ∈ specs

theorem Tracker.Starved.frame {t t' : Tracker} {spec : Specification} {id : NodeId} (h : t.Starved spec id)
    (hstate : t'.state? id = t.state? id) (hreason : t'.reason? id = t.reason? id) : t'.Starved spec id :=
  ⟨hstate.trans h.failed, by rw [hreason]; exact h.missing⟩

/-- A job of the node that will not find the value, has not found it, or has failed its node for that. -/
def Phase.Starves (spec : Specification) (t : Tracker) (id : NodeId) : Phase → Prop
  | .queued => True
  | .begun => True
  | .reading rest _ missing => spec ∈ rest ∨ spec ∈ missing
  | .ready _ => False
  | .writing _ => False
  | .failing reason => ∃ specs, reason = .missingInputs specs ∧ spec ∈ specs
  | .settled _ => t.Starved spec id
  | .finished (.ok _) => t.Starved spec id
  | .finished (.error _) => True

theorem Phase.Starves.frame {spec : Specification} {t t' : Tracker} {id : NodeId} {p : Phase}
    (h : p.Starves spec t id) (hstate : t'.state? id = t.state? id) (hreason : t'.reason? id = t.reason? id) :
    p.Starves spec t' id := by
  cases p with
  | settled => exact Tracker.Starved.frame h hstate hreason
  | finished outcome =>
    cases outcome with
    | ok => exact Tracker.Starved.frame h hstate hreason
    | error => trivial
  | _ => exact h

namespace CacheStore

/-- The cache has no value for the specification, as long as it is open. -/
def Lacks (s : CacheStore) (h : CacheHandle) (spec : Specification) : Prop :=
  ∀ V, s.open? h = some V → V.get? spec = none

variable {s s' : CacheStore} {handle : CacheHandle} {spec : Specification} {v : Computed}

theorem agrees_iff_lacks : s.Agrees handle (· = spec) .empty ↔ s.Lacks handle spec :=
  ⟨fun h V hopen => h V hopen spec rfl, fun h V hopen _ hspec => hspec ▸ h V hopen⟩

theorem Lacks.not_found (h : s.Lacks handle spec) : s.read handle spec ≠ .ok (some v) := by
  intro hfound
  obtain ⟨V, hopen, -, hvalue⟩ := open_of_read hfound
  rw [h V hopen] at hvalue
  cases hvalue

theorem Lacks.write (h : s.Lacks handle spec) (hne : v.specification ≠ spec)
    (hwrite : s.write handle v = .ok s') : s'.Lacks handle spec := by
  intro V' hopen'
  obtain ⟨V, hopen, rfl⟩ := open_of_write hwrite hopen'
  rw [SortedMap.get?_insert, if_neg hne.symm]
  exact h V hopen

end CacheStore

variable {w : RunSetting} {spec : Specification}

/-- A calculation that is called on all its inputs does not read what is not there. -/
theorem Call.Traced.not_read {nodes : List Node} {call : Call} (h : call.Traced (· = spec) .empty nodes) :
    ∃ n ∈ nodes, n.id = call.node ∧ spec ∉ n.inputs := by
  obtain ⟨n, hn, hid, hhas⟩ := h
  refine ⟨n, hn, hid, fun hin => ?_⟩
  obtain ⟨p, hp, -⟩ := hhas spec hin rfl
  cases hp

/-- An action of a job that reads the value, while the cache is without it. -/
theorem Job.Action.starves {s s' : RunState} {j : Job} {p : Phase} (hin : spec ∈ j.node.inputs)
    (hlacks : s.caches.Lacks w.cache spec) (hj : j.phase.Starves spec s.tracker j.node.id)
    (h : Job.Action w s j s' p) : p.Starves spec s'.tracker j.node.id := by
  cases h with
  | announce => exact Or.inl hin
  | read phase found =>
    rw [phase] at hj
    refine hj.imp_left fun hrest => (List.mem_cons.1 hrest).resolve_left ?_
    rintro rfl
    exact hlacks.not_found found
  | @miss spec' rest inputs missing phase =>
    rw [phase] at hj
    change spec ∈ rest ∨ spec ∈ missing ++ [spec']
    rcases hj with hrest | hmissing
    · rcases List.mem_cons.1 hrest with rfl | hrest
      · exact Or.inr List.mem_concat_self
      · exact Or.inl hrest
    · exact Or.inr (List.mem_append_left _ hmissing)
  | complete phase =>
    rw [phase] at hj
    simp [Phase.Starves] at hj
  | incomplete phase =>
    rw [phase] at hj
    exact ⟨_, rfl, hj.resolve_left List.not_mem_nil⟩
  | call phase | write phase | succeed phase =>
    rw [phase] at hj
    exact hj.elim
  | @fail reason t phase moved =>
    rw [phase] at hj
    obtain ⟨specs, rfl, hmem⟩ := hj
    obtain ⟨hmoved, hreasons⟩ := Tracker.markFailed_ok moved
    refine ⟨hmoved.state?_self, specs, ?_, hmem⟩
    change t.reasons.get? _ = _
    rw [hreasons, SortedMap.get?_insert, if_pos rfl]
  | close phase =>
    rw [phase] at hj
    exact hj
  | _ => trivial

namespace GraphRun
variable {g : Graph} {k : Nat} {past past' : History} {r r' : GraphRun} {m : Move} {s : RunState}
  {allowed : Move → Prop}

/-- All jobs that read the value starve. -/
def Starving (spec : Specification) (past : History) (r : GraphRun) : Prop :=
  ∀ j ∈ r.jobs ++ past.reported, spec ∈ j.node.inputs → j.phase.Starves spec r.state.tracker j.node.id

theorem Starving.step (ho : Orderly g k past r) (hlacks : r.state.caches.Lacks w.cache spec)
    (h : Starving spec past r) (hs : Step w past r m past' r') : Starving spec past' r' := by
  cases hs with
  | drop | cancel => exact h
  | dispatch =>
    intro j hj hin
    simp only [List.mem_append, List.mem_singleton] at hj
    rcases hj with (hj | rfl) | hj
    · exact h j (List.mem_append_left _ hj) hin
    · trivial
    · exact h j (List.mem_append_right _ hj) hin
  | @work front j back s' p jobs action =>
    have hj : j ∈ r.jobs ++ past.reported := by simp [jobs]
    have hself : spec ∈ j.node.inputs → p.Starves spec s'.tracker j.node.id := fun hin =>
      action.starves hin hlacks (h j hj hin)
    have hothers : ∀ i ∈ front ++ back ++ past.reported, spec ∈ i.node.inputs →
        i.phase.Starves spec s'.tracker i.node.id := by
      intro i hi hin
      obtain ⟨hi', hne⟩ := ho.others jobs hi
      exact (h i hi' hin).frame (action.state?_of_ne hne) (action.reason?_of_ne hne)
    intro i hi hin
    simp only [List.mem_append, List.mem_cons] at hi
    rcases hi with (hi | rfl | hi) | hi
    · exact hothers i (by simp [hi]) hin
    · exact hself hin
    · exact hothers i (by simp [hi]) hin
    · exact hothers i (by simp [hi]) hin
  | report jobs =>
    intro i hi
    refine h i ?_
    rw [jobs]
    simp only [List.mem_append, List.mem_cons] at hi ⊢
    tauto
  | @receive c rest =>
    obtain ⟨hstate, hjobs, -⟩ := takeIn_keeps { r with reports := rest } c
    unfold Starving
    rw [hstate, hjobs]
    exact h

theorem Reached.lacks (hg : g.WellFormed) (hout : ∀ n ∈ g.nodes, spec ∉ n.outputs)
    (hlacks : s.caches.Lacks w.cache spec) (h : Reached allowed w (.start w g s k) past r) :
    r.state.caches.Lacks w.cache spec := by
  have hkept : ∀ n ∈ g.nodes, ∀ spec' ∈ n.outputs, ¬ spec' = spec := by
    rintro n hn spec' hspec' rfl
    exact hout n hn hspec'
  exact CacheStore.agrees_iff_lacks.1 (h.traced hg hkept (CacheStore.agrees_iff_lacks.2 hlacks)).caches

theorem Reached.starving (hg : g.WellFormed) (hout : ∀ n ∈ g.nodes, spec ∉ n.outputs)
    (hlacks : s.caches.Lacks w.cache spec) (h : Reached allowed w (.start w g s k) past r) :
    Starving spec past r :=
  h.invariant_along (P := Starving spec) (by simp [Starving, GraphRun.start]) fun before hstarving _ hstep =>
    hstarving.step (before.orderly hg) (before.lacks hg hout hlacks) hstep

/-- Where a run is over without a failure, a node that was dispatched and reads the value has starved. -/
theorem Starving.starved (ho : Orderly g k past r) (h : Starving spec past r) (hdone : r.isDone = true)
    (hfatal : r.fatal = none) {n : Node} (hn : n ∈ past.dispatched.map (·.node)) (hin : spec ∈ n.inputs) :
    r.state.tracker.Starved spec n.id := by
  obtain ⟨j, hj, rfl, outcome, hphase⟩ := ho.finished hdone hn
  have hstarves := h j (List.mem_append_right _ hj) hin
  rw [hphase] at hstarves
  cases outcome with
  | ok => exact hstarves
  | error e =>
    have hbroken : j ∈ past.broken := List.mem_filter.2 ⟨hj, Job.isBroken_iff.2 ⟨e, hphase⟩⟩
    rw [(ho.fatal_eq_none_iff hdone).1 hfatal] at hbroken
    cases hbroken

end GraphRun

end CalcCycle
