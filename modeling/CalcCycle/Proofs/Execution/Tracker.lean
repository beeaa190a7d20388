import CalcCycle.Execution.Tracker
import Mathlib.Data.List.Nodup
import Mathlib.Tactic.SplitIfs

/-! What the operations of a tracker do: a node moves from the state that is asked for, all others
stay, and the reason of a failure is recorded for the failed node only. The counts of a tracker add up to
the number of its nodes. -/

namespace CalcCycle.Tracker

/-- `n` has moved from the state `a` to the state `b`, and nothing else has. -/
structure Moved (t t' : Tracker) (n : NodeId) (a b : NodeState) : Prop where
  source : t.state? n = some a
  states : t'.states = t.states.set n.index b

namespace Moved
variable {t t' : Tracker} {n : NodeId} {a b : NodeState}

theorem state?_self (h : t.Moved t' n a b) : t'.state? n = some b := by
  have hlt : n.index < t.states.length := (List.getElem?_eq_some_iff.1 h.source).1
  rw [state?, h.states, List.getElem?_set_self hlt]

theorem state?_of_ne (h : t.Moved t' n a b) {m : NodeId} (hm : m ≠ n) : t'.state? m = t.state? m := by
  have hne : n.index ≠ m.index := fun he => hm (NodeId.index_injective he.symm)
  rw [state?, h.states, List.getElem?_set_ne hne, state?]

theorem size (h : t.Moved t' n a b) : t'.size = t.size := by
  rw [Tracker.size, h.states, List.length_set, Tracker.size]

/-- No move leads out of a terminal state. -/
theorem terminal (h : t.Moved t' n a b) (ha : a.isTerminal = false) {m : NodeId} {st : NodeState}
    (hst : st.isTerminal = true) (hm : t.state? m = some st) : t'.state? m = some st := by
  have hne : m ≠ n := by
    rintro rfl
    rw [h.source] at hm
    cases hm
    rw [ha] at hst
    cases hst
  rw [h.state?_of_ne hne, hm]

end Moved

theorem move_ok {t t' : Tracker} {n : NodeId} {a b : NodeState} (h : t.move n a b = .ok t') :
    t.Moved t' n a b ∧ t'.reasons = t.reasons := by
  unfold move at h
  split at h
  · cases h
  · next actual hs =>
    split_ifs at h with ha
    cases h
    exact ⟨⟨ha ▸ hs, rfl⟩, rfl⟩

theorem exists_move {t : Tracker} {n : NodeId} {a : NodeState} (h : t.state? n = some a)
    (b : NodeState) : ∃ t', t.move n a b = .ok t' := by
  unfold move
  rw [h]
  exact ⟨_, if_pos rfl⟩

/-- A move that is refused is refused in the name of the node. -/
theorem move_error {t : Tracker} {n : NodeId} {a b : NodeState} {e : Failure} (h : t.move n a b = .error e) :
    ∃ text, e = .invariant (n.text ++ text) := by
  unfold move at h
  split at h
  · cases h
    exact ⟨_, rfl⟩
  · split_ifs at h
    cases h
    simp only [String.append_assoc]
    exact ⟨_, rfl⟩

/-- What is noted in the tracker after a move is noted where the move succeeds. -/
theorem move_then_ok {t t' : Tracker} {n : NodeId} {a b : NodeState} (note : Tracker → Tracker)
    (h : (do pure (note (← t.move n a b))) = Except.ok t') : ∃ u, t.move n a b = .ok u ∧ t' = note u := by
  cases hmove : t.move n a b with
  | error e => rw [hmove] at h; cases h
  | ok u =>
    rw [hmove] at h
    cases h
    exact ⟨u, rfl, rfl⟩

/-- What is noted in the tracker after a move cannot fail. -/
theorem move_then_error {t : Tracker} {n : NodeId} {a b : NodeState} {note : Tracker → Tracker} {e : Failure}
    (h : (do pure (note (← t.move n a b))) = Except.error e) : t.move n a b = .error e := by
  cases hmove : t.move n a b with
  | error e' =>
    rw [hmove] at h
    cases h
    rfl
  | ok u => rw [hmove] at h; cases h

theorem begin_ok {t t' : Tracker} {n : NodeId} (h : t.begin n = .ok t') :
    t.Moved t' n .notStarted .executing ∧ t'.reasons = t.reasons :=
  move_ok h

theorem exists_begin {t : Tracker} {n : NodeId} (h : t.state? n = some .notStarted) :
    ∃ t', t.begin n = .ok t' :=
  exists_move h _

theorem markExecuted_ok {t t' : Tracker} {n : NodeId} (h : t.markExecuted n = .ok t') :
    t.Moved t' n .executing .executed ∧ t'.reasons = t.reasons := by
  obtain ⟨u, hu, rfl⟩ := move_then_ok (fun t => { t with executedTally := t.executedTally + 1 }) h
  obtain ⟨hmoved, hr⟩ := move_ok hu
  exact ⟨⟨hmoved.source, hmoved.states⟩, hr⟩

theorem exists_markExecuted {t : Tracker} {n : NodeId} (h : t.state? n = some .executing) :
    ∃ t', t.markExecuted n = .ok t' := by
  obtain ⟨u, hu⟩ := exists_move h .executed
  exact ⟨_, by rw [markExecuted, hu]; rfl⟩

theorem markFailed_ok {t t' : Tracker} {n : NodeId} {reason : FailureReason}
    (h : t.markFailed n reason = .ok t') :
    t.Moved t' n .executing .failed ∧ t'.reasons = t.reasons.insert n reason := by
  obtain ⟨u, hu, rfl⟩ := move_then_ok
    (fun t => { t with reasons := t.reasons.insert n reason, failedTally := t.failedTally + 1 }) h
  obtain ⟨hmoved, hr⟩ := move_ok hu
  exact ⟨⟨hmoved.source, hmoved.states⟩, by rw [← hr]⟩

theorem exists_markFailed {t : Tracker} {n : NodeId} (reason : FailureReason)
    (h : t.state? n = some .executing) : ∃ t', t.markFailed n reason = .ok t' := by
  obtain ⟨u, hu⟩ := exists_move h .failed
  exact ⟨_, by rw [markFailed, hu]; rfl⟩

theorem state?_start {count : Nat} {n : NodeId} (h : n.index < count) :
    (start count).state? n = some .notStarted := by
  simp [start, state?, h]

/-! ### Counts -/

theorem mem_nodesIn {t : Tracker} {n : NodeId} {st : NodeState} :
    n ∈ t.nodesIn st ↔ t.state? n = some st := by
  simp only [nodesIn, List.mem_map, List.mem_filter, beq_iff_eq]
  constructor
  · rintro ⟨e, ⟨he, rfl⟩, rfl⟩
    exact List.mem_zipIdx_iff_getElem?.1 he
  · intro h
    exact ⟨(st, n.index), ⟨List.mem_zipIdx_iff_getElem?.2 h, rfl⟩, rfl⟩

/-- The nodes in a state are listed by ascending id. -/
theorem pairwise_nodesIn (t : Tracker) (st : NodeState) :
    (t.nodesIn st).Pairwise fun a b => a.index < b.index := by
  have hplaces : (t.states.zipIdx.map (·.2)).Pairwise (· < ·) := by
    rw [List.zipIdx_map_snd]
    exact List.pairwise_lt_range'
  have hfound := hplaces.sublist (List.filter_sublist (p := (·.1 == st)).map _)
  exact List.pairwise_map.2 (List.pairwise_map.1 hfound)

theorem nodup_nodesIn (t : Tracker) (st : NodeState) : (t.nodesIn st).Nodup :=
  (t.pairwise_nodesIn st).imp fun hlt heq => Nat.ne_of_lt hlt (congrArg NodeId.index heq)

theorem length_nodesIn (t : Tracker) (st : NodeState) : (t.nodesIn st).length = t.states.count st := by
  rw [nodesIn, List.length_map, ← List.countP_eq_length_filter]
  conv_rhs => rw [← List.zipIdx_map_fst 0 t.states, List.count, List.countP_map]
  rfl

end CalcCycle.Tracker

namespace CalcCycle.StateCounts

theorem foldl_tally (states : List NodeState) (c : StateCounts) :
    states.foldl tally c =
      { notStarted := c.notStarted + states.count .notStarted
        executing := c.executing + states.count .executing
        executed := c.executed + states.count .executed
        failed := c.failed + states.count .failed } := by
  induction states generalizing c with
  | nil => rfl
  | cons st rest ih =>
    rw [List.foldl_cons, ih]
    cases st <;> simp [tally] <;> omega

/-- Every node is counted in one state. -/
theorem add_ofStates (states : List NodeState) :
    (ofStates states).executed + (ofStates states).failed + (ofStates states).notStarted +
      states.count .executing = states.length := by
  simp only [ofStates, foldl_tally]
  induction states with
  | nil => rfl
  | cons st rest ih => cases st <;> simp at ih ⊢ <;> omega

end CalcCycle.StateCounts
