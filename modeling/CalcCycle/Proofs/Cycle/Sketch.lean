import CalcCycle.Feed.Memory
import CalcCycle.Proofs.Cycle.Activity
import CalcCycle.Proofs.Cycle.Determinism

/-! What a cycle computes: its stage, what is missing, the states and the reasons of its nodes and its
results are a function of the model, the values that were frozen for it, and the operations called. -/

namespace CalcCycle

/-- The values for the requirements, and those of the requirements for which there is none. -/
def LiveValues.sow (frozen : LiveValues) :
    List Requirement → List Specification → Values → SortedSet Requirement → Values × SortedSet Requirement
  | [], _, V, missing => (V, missing)
  | r :: rest, seeded, V, missing =>
    if r.resolve ∈ seeded then sow frozen rest seeded V missing
    else
      match frozen.lookup r with
      | some p => sow frozen rest (r.resolve :: seeded) (V.insert r.resolve p) missing
      | none => sow frozen rest seeded V (missing.insert r)

/-- Those of the specifications that have a value, with it. -/
def Values.known (V : Values) (specs : List Specification) : List Computed :=
  specs.filterMap fun spec => (V.get? spec).map fun p => ⟨spec, p⟩

namespace Model

/-- What the seeding leaves in the cache, and what is missing. -/
def seeds (m : Model) (frozen : LiveValues) : Values × SortedSet Requirement :=
  frozen.sow m.liveData.elements [] .empty .empty

/-- What the execution leaves. -/
def ledger (m : Model) (frozen : LiveValues) : Ledger :=
  Ledger.visitAll Node.pureAnswer m.schedule (.start m.nodeCount (m.seeds frozen).1)

/-- What is taken over into the results. -/
def findings (m : Model) (frozen : LiveValues) : List Computed :=
  (m.ledger frozen).values.known (Session.reported m)

end Model

/-- What a cycle has come to: its stage, what is missing, the states and the reasons of its nodes, and its
results. Tokens, ids and times are left out. -/
structure Sketch where
  stage : Stage
  missing : SortedSet Requirement
  states : List NodeState
  reasons : SortedMap NodeId FailureReason
  values : SortedMap Specification Payload

def Cycle.sketch (c : Cycle) : Sketch where
  stage := c.stage
  missing := c.missing
  states := c.tracker.states
  reasons := c.tracker.reasons
  values := c.results.values

namespace Sketch

section Operations
variable (m : Model) (frozen : LiveValues) (k : Sketch)

def prepared : Sketch := { k with stage := .inputsPrepared, missing := (m.seeds frozen).2 }

def executed : Sketch :=
  { k with
    stage := .executing
    states := (m.ledger frozen).states
    reasons := (m.ledger frozen).reasons }

def populated : Sketch :=
  { k with
    stage := .resultsPopulated
    values := (m.findings frozen).foldl (fun V v => V.insert v.specification v.payload) k.values }

def released : Sketch := { k with stage := .released }

def performed : Operation → Sketch
  | .prepareInputs => k.prepared m frozen
  | .executePlans => k.executed m frozen
  | .populateResults => k.populated m frozen
  | .releaseResources => k.released

/-- The sketch after a call of the operation; the operation is refused in a stage that does not allow
it. -/
def after (op : Operation) : Sketch := if k.stage ∈ op.allowed then k.performed m frozen op else k

end Operations

def afterAll (m : Model) (frozen : LiveValues) (k : Sketch) (calls : List OperationCall) : Sketch :=
  calls.foldl (fun k call => k.after m frozen call.1) k

variable {m : Model} {frozen frozen' : LiveValues} {k : Sketch} {op : Operation}

theorem after_of_mem (h : k.stage ∈ op.allowed) : k.after m frozen op = k.performed m frozen op := if_pos h

theorem after_of_notMem (h : k.stage ∉ op.allowed) : k.after m frozen op = k := if_neg h

/-- An operation that goes ahead makes the cycle other than new. -/
theorem after_ne_created (h : k.stage ≠ .created ∨ k.stage ∈ op.allowed) :
    (k.after m frozen op).stage ≠ .created := by
  by_cases hallowed : k.stage ∈ op.allowed
  · rw [after_of_mem hallowed]
    cases op <;> simp [performed, prepared, executed, populated, released]
  · rw [after_of_notMem hallowed]
    exact h.resolve_right hallowed

theorem afterAll_ne_created (calls : List OperationCall) (h : k.stage ≠ .created) :
    (k.afterAll m frozen calls).stage ≠ .created := by
  induction calls generalizing k with
  | nil => exact h
  | cons call rest ih => exact ih (after_ne_created (Or.inl h))

/-- As long as a cycle is new nothing depends on what is frozen. -/
theorem afterAll_of_created (calls : List OperationCall)
    (h : (k.afterAll m frozen calls).stage = .created) :
    k.afterAll m frozen' calls = k.afterAll m frozen calls := by
  induction calls generalizing k with
  | nil => rfl
  | cons call rest ih =>
    have hsplit : ∀ F, k.afterAll m F (call :: rest) = (k.after m F call.1).afterAll m F rest := fun _ => rfl
    by_cases hallowed : k.stage ∈ call.1.allowed
    · exact absurd h (afterAll_ne_created rest (after_ne_created (Or.inr hallowed)))
    · rw [hsplit, after_of_notMem hallowed] at h ⊢
      rw [hsplit, after_of_notMem hallowed]
      exact ih h

theorem afterAll_concat (k : Sketch) (calls : List OperationCall) (call : OperationCall) :
    k.afterAll m frozen (calls ++ [call]) = (k.afterAll m frozen calls).after m frozen call.1 := by
  unfold afterAll
  rw [List.foldl_append]
  rfl

end Sketch

theorem Results.addAll_values (r : Results) (vs : List Computed) :
    (r.addAll vs).values = vs.foldl (fun V v => V.insert v.specification v.payload) r.values := by
  unfold Results.addAll
  induction vs generalizing r with
  | nil => rfl
  | cons v rest ih => exact ih (r.add v)

/-! ### Models that are built of pure calculations -/

/-- What is relied on of a model that is built of pure calculations. -/
structure Model.Calm (m : Model) : Prop where
  accepted : ∀ g ∈ m.schedule, g.Accepted
  separate : m.schedule.Pairwise Graph.Separate
  bound : ∀ g ∈ m.schedule, ∀ n ∈ g.nodes, n.id.index < m.nodeCount
  pure : ∀ g ∈ m.schedule, ∀ n ∈ g.nodes, n.calculation.Pure
  live : ∀ d ∈ m.liveData, ∀ g ∈ m.schedule, ∀ n ∈ g.nodes, d.resolve ∉ n.outputs

theorem Model.calm_of_build {b : Blueprint} {m : Model} (hbuild : b.build = .ok m)
    (hpure : ∀ r ∈ b.registrations, r.calculation.Pure) : m.Calm := by
  have hwf := (Blueprint.build_ok hbuild).2
  have hmem : ∀ g ∈ m.schedule, g ∈ m.graphs := fun g hg => mem_schedule.1 hg
  refine ⟨fun g hg => Blueprint.accepted_of_build hbuild (hmem g hg), hwf.separate_schedule,
    fun g hg => hwf.bound g (hmem g hg), ?_, ?_⟩
  · intro g hg n hn
    obtain ⟨r, hr⟩ := Blueprint.exists_stem hbuild (hmem g hg) hn
    rw [hr.calculation]
    exact hpure r hr.mem
  · exact fun d hd g hg n hn => Blueprint.live_not_produced hbuild hd (hmem g hg) hn

/-- Values are sown for requirements only. -/
theorem LiveValues.get?_sow {frozen : LiveValues} (rest : List Requirement) {seeded : List Specification}
    {V : Values} {missing : SortedSet Requirement} {spec : Specification}
    (hV : V.get? spec = none) (hrest : ∀ r ∈ rest, r.resolve ≠ spec) :
    (frozen.sow rest seeded V missing).1.get? spec = none := by
  induction rest generalizing seeded V missing with
  | nil => exact hV
  | cons r rest ih =>
    obtain ⟨hr, hrest⟩ := List.forall_mem_cons.1 hrest
    rw [sow]
    split_ifs
    · exact ih hV hrest
    · split
      · refine ih ?_ hrest
        rw [SortedMap.get?_insert, if_neg (Ne.symm hr), hV]
      · exact ih hV hrest

/-- What is seeded concerns no node. -/
theorem Model.Calm.untouched {m : Model} (hm : m.Calm) (frozen : LiveValues) :
    ∀ g ∈ m.schedule, ∀ n ∈ g.nodes, n.Untouched (.start m.nodeCount) (m.seeds frozen).1 := by
  intro g hg n hn
  apply Node.untouched_start (hm.bound g hg n hn)
  intro spec hspec
  apply LiveValues.get?_sow _ rfl
  intro d hd he
  exact hm.live d hd g hg n hn (he ▸ hspec)

end CalcCycle
