import CalcCycle.Proofs.Cache.Open
import CalcCycle.Proofs.Execution.Action
import CalcCycle.Proofs.Execution.Verdict

/-! How a job stands to the tracker and the cache in each of its phases. A job reads the inputs of its
node, writes the outputs of its node and moves its node; as long as nobody else does, it meets no
refusal, and its node ends as the values of its inputs and one answer of the calculation say. -/

namespace CalcCycle

/-- A calculation may answer anything, but it does not close the running cache, and it crashes only
where crashes are contained. -/
structure Calculation.Tame (contain : Bool) (f : Calculation) : Prop where
  keeps : ∀ c t i, Interrupt.releaseCache ∉ (f.call c t i).interrupts
  contained : contain = true ∨ ∀ c t i message, (f.call c t i).outcome ≠ .crash message

namespace Node

/-- What is seen of a node: its state, the reason of its failure, and the values of its outputs. -/
structure Shows (t : Tracker) (V : Values) (n : Node) (st : NodeState) (reason : Option FailureReason)
    (value? : Specification → Option Payload) : Prop where
  state : t.state? n.id = some st
  reason : t.reason? n.id = reason
  outputs : ∀ spec ∈ n.outputs, V.get? spec = value? spec

/-- Nobody has begun the node. -/
def Untouched (t : Tracker) (V : Values) (n : Node) : Prop :=
  n.Shows t V .notStarted none fun _ => none

/-- A job has begun the node and has not written anything. -/
def Begun (t : Tracker) (V : Values) (n : Node) : Prop :=
  n.Shows t V .executing none fun _ => none

/-- The node may end so: one answer of its calculation leads there. -/
def MayEnd (w : RunSetting) (V : Values) (n : Node) (v : Verdict) : Prop :=
  ∃ job, v = n.judge V (n.answer w job)

def Ended (w : RunSetting) (t : Tracker) (V : Values) (n : Node) (v : Verdict) : Prop :=
  n.MayEnd w V v ∧ n.Shows t V v.state v.reason? v.value?

/-- The change does not concern the node. -/
structure Unaffected (n : Node) (t : Tracker) (V : Values) (t' : Tracker) (V' : Values) : Prop where
  state : t'.state? n.id = t.state? n.id
  reason : t'.reason? n.id = t.reason? n.id
  outputs : ∀ spec ∈ n.outputs, V'.get? spec = V.get? spec

variable {n : Node} {w : RunSetting} {t t' : Tracker} {V V' : Values} {st : NodeState}
  {reason : Option FailureReason} {value? : Specification → Option Payload} {v : Verdict}

theorem Shows.frame (h : n.Shows t V st reason value?) (hn : n.Unaffected t V t' V') :
    n.Shows t' V' st reason value? :=
  ⟨hn.state.trans h.state, hn.reason.trans h.reason,
    fun spec hspec => (hn.outputs spec hspec).trans (h.outputs spec hspec)⟩

theorem Unaffected.symm (h : n.Unaffected t V t' V') : n.Unaffected t' V' t V :=
  ⟨h.state.symm, h.reason.symm, fun spec hspec => (h.outputs spec hspec).symm⟩

theorem Unaffected.trans {t'' : Tracker} {V'' : Values} (h : n.Unaffected t V t' V')
    (h' : n.Unaffected t' V' t'' V'') : n.Unaffected t V t'' V'' :=
  ⟨h'.state.trans h.state, h'.reason.trans h.reason,
    fun spec hspec => (h'.outputs spec hspec).trans (h.outputs spec hspec)⟩

/-- What shows the same of a node does not tell two runs apart. -/
theorem Shows.unaffected (h : n.Shows t V st reason value?) (h' : n.Shows t' V' st reason value?) :
    n.Unaffected t V t' V' :=
  ⟨h'.state.trans h.state.symm, h'.reason.trans h.reason.symm,
    fun spec hspec => (h'.outputs spec hspec).trans (h.outputs spec hspec).symm⟩

theorem MayEnd.congr (h : n.MayEnd w V v) (hin : ∀ spec ∈ n.inputs, V'.get? spec = V.get? spec) :
    n.MayEnd w V' v := by
  obtain ⟨job, rfl⟩ := h
  exact ⟨job, (judge_congr hin).symm⟩

/-- The next value to be written is declared and has not been written. -/
theorem MayEnd.next {done rest : List Computed} {u : Computed}
    (hend : n.MayEnd w V (.executed (done ++ u :: rest)))
    (hshows : n.Shows t V .executing none (valueIn done)) :
    u.specification ∈ n.outputs ∧ (∀ v ∈ done, v.specification ≠ u.specification) ∧
      V.get? u.specification = none := by
  obtain ⟨job, hjudge⟩ := hend
  obtain ⟨hdeclared, hnodup⟩ := judge_executed hjudge.symm
  rw [List.map_append, List.map_cons, List.nodup_append] at hnodup
  have hout : u.specification ∈ n.outputs := hdeclared u (by simp)
  have hnew : ∀ v ∈ done, v.specification ≠ u.specification := fun v hv =>
    hnodup.2.2 _ (List.mem_map_of_mem hv) _ List.mem_cons_self
  exact ⟨hout, hnew, by rw [hshows.outputs _ hout, valueIn_eq_none hnew]⟩

/-- Writing a value that is new changes that value only. -/
theorem MayEnd.write {done rest : List Computed} {u : Computed} (hown : ∀ spec ∈ n.inputs, spec ∉ n.outputs)
    (hend : n.MayEnd w V (.executed (done ++ u :: rest)))
    (hshows : n.Shows t V .executing none (valueIn done)) :
    n.MayEnd w (V.insert u.specification u.payload) (.executed (done ++ [u] ++ rest)) ∧
      n.Shows t (V.insert u.specification u.payload) .executing none (valueIn (done ++ [u])) ∧
      ∀ spec ∉ n.outputs, (V.insert u.specification u.payload).get? spec = V.get? spec := by
  obtain ⟨hout, hnew, -⟩ := hend.next hshows
  have hframe : ∀ spec, spec ≠ u.specification →
      (V.insert u.specification u.payload).get? spec = V.get? spec := fun spec hne => by
    rw [SortedMap.get?_insert, if_neg hne]
  refine ⟨?_, ⟨hshows.state, hshows.reason, ?_⟩, ?_⟩
  · rw [← List.append_cons]
    exact hend.congr fun spec hspec => hframe spec fun he => hown spec hspec (he ▸ hout)
  · intro spec hspec
    by_cases he : spec = u.specification
    · rw [he, SortedMap.get?_insert, if_pos rfl, valueIn_concat_self hnew]
    · rw [hframe spec he, valueIn_concat_of_ne he]
      exact hshows.outputs spec hspec
  · intro spec hspec
    exact hframe spec fun he => hspec (he ▸ hout)

end Node

namespace Phase

/-- The phase of a job of the node is what the tracker and the cache say. -/
def Fits (w : RunSetting) (t : Tracker) (V : Values) (n : Node) : Phase → Prop
  | .queued => n.Untouched t V
  | .begun => n.Begun t V
  | .reading rest inputs missing =>
    n.Begun t V ∧ ∃ done, n.inputs = done ++ rest ∧ inputs = V.gather done ∧ missing = V.absent done
  | .ready inputs => n.Begun t V ∧ V.absent n.inputs = [] ∧ inputs = V.gather n.inputs
  | .writing rest =>
    ∃ done, n.MayEnd w V (.executed (done ++ rest)) ∧ n.Shows t V .executing none (valueIn done)
  | .failing reason => n.Begun t V ∧ n.MayEnd w V (.failed reason)
  | .settled st => ∃ v, n.Ended w t V v ∧ st = v.state
  | .finished outcome => ∃ v, n.Ended w t V v ∧ outcome = .ok v.state

theorem Fits.frame {w : RunSetting} {t t' : Tracker} {V V' : Values} {n : Node} {p : Phase}
    (h : Fits w t V n p) (hn : n.Unaffected t V t' V')
    (hin : ∀ spec ∈ n.inputs, V'.get? spec = V.get? spec) : Fits w t' V' n p := by
  cases p with
  | queued => exact Node.Shows.frame h hn
  | begun => exact Node.Shows.frame h hn
  | reading rest inputs missing =>
    obtain ⟨hbegun, done, hsplit, hinputs, hmissing⟩ := h
    have hdone : ∀ spec ∈ done, V'.get? spec = V.get? spec := by
      intro spec hspec
      apply hin
      rw [hsplit]
      exact List.mem_append_left _ hspec
    refine ⟨hbegun.frame hn, done, hsplit, ?_, ?_⟩
    · rw [hinputs, Values.gather_congr hdone]
    · rw [hmissing, Values.absent_congr hdone]
  | ready inputs =>
    obtain ⟨hbegun, habsent, hinputs⟩ := h
    refine ⟨hbegun.frame hn, ?_, ?_⟩
    · rw [Values.absent_congr hin, habsent]
    · rw [Values.gather_congr hin, hinputs]
  | writing rest =>
    obtain ⟨done, hend, hshows⟩ := h
    exact ⟨done, hend.congr hin, hshows.frame hn⟩
  | failing reason => exact ⟨h.1.frame hn, h.2.congr hin⟩
  | settled st =>
    obtain ⟨v, ⟨hend, hshows⟩, hst⟩ := h
    exact ⟨v, ⟨hend.congr hin, hshows.frame hn⟩, hst⟩
  | finished outcome =>
    obtain ⟨v, ⟨hend, hshows⟩, hst⟩ := h
    exact ⟨v, ⟨hend.congr hin, hshows.frame hn⟩, hst⟩

/-! From one phase to the next, without a change to what is shared. -/

section Next
variable {w : RunSetting} {t : Tracker} {V : Values} {n : Node} {rest missing : List Specification}
  {spec : Specification} {inputs : Inputs}

theorem Fits.read (h : Fits w t V n (.reading (spec :: rest) inputs missing)) {p : Payload}
    (hp : V.get? spec = some p) : Fits w t V n (.reading rest (Inputs.add inputs ⟨spec, p⟩) missing) := by
  obtain ⟨hbegun, done, hsplit, hinputs, hmissing⟩ := h
  refine ⟨hbegun, done ++ [spec], ?_, ?_, ?_⟩
  · rw [hsplit, List.append_cons]
  · rw [hinputs, Values.gather_concat_some hp]
  · rw [hmissing, Values.absent_concat_some hp]

theorem Fits.miss (h : Fits w t V n (.reading (spec :: rest) inputs missing)) (hp : V.get? spec = none) :
    Fits w t V n (.reading rest inputs (missing ++ [spec])) := by
  obtain ⟨hbegun, done, hsplit, hinputs, hmissing⟩ := h
  refine ⟨hbegun, done ++ [spec], ?_, ?_, ?_⟩
  · rw [hsplit, List.append_cons]
  · rw [hinputs, Values.gather_concat_none hp]
  · rw [hmissing, Values.absent_concat_none hp]

/-- A job that has read everything knows which inputs are absent. -/
theorem Fits.all_read (h : Fits w t V n (.reading [] inputs missing)) :
    n.Begun t V ∧ inputs = V.gather n.inputs ∧ missing = V.absent n.inputs := by
  obtain ⟨hbegun, done, hsplit, hinputs, hmissing⟩ := h
  rw [List.append_nil] at hsplit
  rw [hsplit]
  exact ⟨hbegun, hinputs, hmissing⟩

theorem Fits.complete (h : Fits w t V n (.reading [] inputs [])) : Fits w t V n (.ready inputs) := by
  obtain ⟨hbegun, hinputs, hmissing⟩ := h.all_read
  exact ⟨hbegun, hmissing.symm, hinputs⟩

theorem Fits.incomplete (h : Fits w t V n (.reading [] inputs missing)) (hm : missing ≠ []) :
    Fits w t V n (.failing (.missingInputs missing)) := by
  obtain ⟨hbegun, -, rfl⟩ := h.all_read
  exact ⟨hbegun, 0, (Node.judge_of_absent hm).symm⟩

theorem Fits.answered (h : Fits w t V n (.ready inputs)) (job : Nat) :
    Fits w t V n (Job.phaseFor (n.verdictOn (n.answer w job inputs))) := by
  obtain ⟨hbegun, habsent, rfl⟩ := h
  have hend : n.MayEnd w V (n.verdictOn (n.answer w job (V.gather n.inputs))) :=
    ⟨job, by rw [Node.judge_of_present habsent]⟩
  cases hv : n.verdictOn (n.answer w job (V.gather n.inputs)) with
  | executed vs =>
    rw [hv] at hend
    exact ⟨[], hend, hbegun⟩
  | failed reason =>
    rw [hv] at hend
    exact ⟨hbegun, hend⟩

end Next

end Phase

namespace Job
variable {w : RunSetting} {s s' : RunState} {j : Job} {p : Phase} {V : Values}

/-- An action of a job that fits: it is not refused, the job fits again, and only outputs of its node
have got other values. -/
theorem Action.fits (htame : j.node.calculation.Tame w.containCrashes)
    (hown : ∀ spec ∈ j.node.inputs, spec ∉ j.node.outputs) (hopen : s.caches.open? w.cache = some V)
    (hfits : j.phase.Fits w s.tracker V j.node) (h : Action w s j s' p) :
    ∃ V', s'.caches.open? w.cache = some V' ∧ p.Fits w s'.tracker V' j.node ∧
      ∀ spec ∉ j.node.outputs, V'.get? spec = V.get? spec := by
  cases h with
  | @start t phase moved =>
    rw [phase] at hfits
    obtain ⟨hmoved, hreasons⟩ := Tracker.begin_ok moved
    refine ⟨V, hopen, ⟨hmoved.state?_self, ?_, hfits.outputs⟩, fun _ _ => rfl⟩
    rw [Tracker.reason?, hreasons]
    exact hfits.reason
  | refuseStart phase refused =>
    rw [phase] at hfits
    obtain ⟨t, ht⟩ := Tracker.exists_begin hfits.state
    rw [ht] at refused
    cases refused
  | announce phase =>
    rw [phase] at hfits
    exact ⟨V, hopen, ⟨hfits, [], rfl, rfl, rfl⟩, fun _ _ => rfl⟩
  | @read spec rest inputs missing v phase found =>
    rw [phase] at hfits
    rw [CacheStore.read_of_open hopen, Except.ok.injEq, Option.map_eq_some_iff] at found
    obtain ⟨payload, hpayload, rfl⟩ := found
    exact ⟨V, hopen, hfits.read hpayload, fun _ _ => rfl⟩
  | @miss spec rest inputs missing phase absent =>
    rw [phase] at hfits
    rw [CacheStore.read_of_open hopen, Except.ok.injEq, Option.map_eq_none_iff] at absent
    exact ⟨V, hopen, hfits.miss absent, fun _ _ => rfl⟩
  | refuseRead phase refused =>
    rw [CacheStore.read_of_open hopen] at refused
    cases refused
  | complete phase =>
    rw [phase] at hfits
    exact ⟨V, hopen, hfits.complete, fun _ _ => rfl⟩
  | incomplete phase some =>
    rw [phase] at hfits
    exact ⟨V, hopen, hfits.incomplete some, fun _ _ => rfl⟩
  | @call inputs reply phase answer =>
    rw [phase] at hfits
    have hreply : reply.outcome = j.node.answer w j.id inputs := by
      rw [← answer]
      rfl
    have hkept : Interrupt.releaseCache ∉ reply.interrupts := by
      rw [← answer]
      exact htame.keeps _ _ _
    have hcontained : w.containCrashes = true ∨ ∀ message, reply.outcome ≠ .crash message := by
      rw [← answer]
      exact htame.contained.imp_right fun h => h _ _ _
    refine ⟨V, ?_, ?_, fun _ _ => rfl⟩
    · rw [foldl_interrupt_caches w hkept]
      exact hopen
    · rw [(foldl_interrupt w _ _).1, afterCall_eq _ hcontained, hreply]
      exact hfits.answered j.id
  | @write v rest caches phase written =>
    rw [phase] at hfits
    obtain ⟨done, hend, hshows⟩ := hfits
    obtain ⟨hend', hshows', hframe⟩ := hend.write hown hshows
    obtain ⟨caches', hwritten, hopen', -, -⟩ := CacheStore.write_of_open hopen (hend.next hshows).2.2
    rw [hwritten] at written
    cases written
    exact ⟨_, hopen', ⟨done ++ [v], hend', hshows'⟩, hframe⟩
  | refuseWrite phase refused =>
    rw [phase] at hfits
    obtain ⟨done, hend, hshows⟩ := hfits
    obtain ⟨caches', hwritten, -⟩ := CacheStore.write_of_open hopen (hend.next hshows).2.2
    rw [hwritten] at refused
    cases refused
  | @succeed t phase moved =>
    rw [phase] at hfits
    obtain ⟨done, hend, hshows⟩ := hfits
    rw [List.append_nil] at hend
    obtain ⟨hmoved, hreasons⟩ := Tracker.markExecuted_ok moved
    refine ⟨V, hopen, ⟨.executed done, ⟨hend, hmoved.state?_self, ?_, hshows.outputs⟩, rfl⟩, fun _ _ => rfl⟩
    rw [Tracker.reason?, hreasons]
    exact hshows.reason
  | refuseSuccess phase refused =>
    rw [phase] at hfits
    obtain ⟨done, -, hshows⟩ := hfits
    obtain ⟨t, ht⟩ := Tracker.exists_markExecuted hshows.state
    rw [ht] at refused
    cases refused
  | @fail reason t phase moved =>
    rw [phase] at hfits
    obtain ⟨hmoved, hreasons⟩ := Tracker.markFailed_ok moved
    refine ⟨V, hopen, ⟨.failed reason, ⟨hfits.2, hmoved.state?_self, ?_, hfits.1.outputs⟩, rfl⟩, fun _ _ => rfl⟩
    rw [Tracker.reason?, hreasons, SortedMap.get?_insert, if_pos rfl]
    rfl
  | @refuseFailure reason e phase refused =>
    rw [phase] at hfits
    obtain ⟨t, ht⟩ := Tracker.exists_markFailed reason hfits.1.state
    rw [ht] at refused
    cases refused
  | close phase =>
    rw [phase] at hfits
    obtain ⟨v, hended, rfl⟩ := hfits
    exact ⟨V, hopen, ⟨v, hended, rfl⟩, fun _ _ => rfl⟩

end Job

end CalcCycle
