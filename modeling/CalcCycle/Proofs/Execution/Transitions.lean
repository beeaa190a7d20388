import CalcCycle.Proofs.Execution.Tallies
import Mathlib.Data.List.Induction

/-! The history of a tracker, over any calls in any order and with any ids. A call is granted if the node is in the
state from which it moves, and refused otherwise. The calls that are granted for a node take it one of two ways:
it begins, and then it is executed or it fails. At every point the tallies, the counts and the lists of nodes
agree, and a node has a reason exactly if it has failed: the one that was given when it did. -/

namespace CalcCycle

inductive TrackerCall
  | begin (n : NodeId)
  | markExecuted (n : NodeId)
  | markFailed (n : NodeId) (reason : FailureReason)
  deriving DecidableEq

namespace TrackerCall

def node : TrackerCall → NodeId
  | begin n => n
  | markExecuted n => n
  | markFailed n _ => n

/-- The state in which the node has to be. -/
def source : TrackerCall → NodeState
  | begin _ => .notStarted
  | markExecuted _ => .executing
  | markFailed _ _ => .executing

/-- The state to which the node moves. -/
def goal : TrackerCall → NodeState
  | begin _ => .executing
  | markExecuted _ => .executed
  | markFailed _ _ => .failed

def reason? : TrackerCall → Option FailureReason
  | markFailed _ reason => some reason
  | _ => none

def apply (t : Tracker) : TrackerCall → Except Failure Tracker
  | begin n => t.begin n
  | markExecuted n => t.markExecuted n
  | markFailed n reason => t.markFailed n reason

/-! ### One call -/

variable {t t' : Tracker} {c : TrackerCall} {st : NodeState}

theorem apply_moved (h : c.apply t = .ok t') : t.Moved t' c.node c.source c.goal := by
  cases c with
  | begin n => exact (Tracker.begin_ok h).1
  | markExecuted n => exact (Tracker.markExecuted_ok h).1
  | markFailed n reason => exact (Tracker.markFailed_ok h).1

theorem apply_reason? (h : c.apply t = .ok t') (m : NodeId) :
    t'.reason? m = if m = c.node then c.reason?.or (t.reason? m) else t.reason? m := by
  have hkept : t'.reasons = t.reasons → c.reason? = none →
      t'.reason? m = if m = c.node then c.reason?.or (t.reason? m) else t.reason? m := by
    intro hr hnone
    rw [hnone, Option.none_or, ite_self, Tracker.reason?, hr, Tracker.reason?]
  cases c with
  | begin n => exact hkept (Tracker.begin_ok h).2 rfl
  | markExecuted n => exact hkept (Tracker.markExecuted_ok h).2 rfl
  | markFailed n reason =>
    rw [Tracker.reason?, (Tracker.markFailed_ok h).2, SortedMap.get?_insert]
    rfl

theorem exists_apply (h : t.state? c.node = some c.source) : ∃ t', c.apply t = .ok t' := by
  cases c with
  | begin n => exact Tracker.exists_begin h
  | markExecuted n => exact Tracker.exists_markExecuted h
  | markFailed n reason => exact Tracker.exists_markFailed reason h

theorem apply_error {e : Failure} (h : c.apply t = .error e) : ∃ text, e = .invariant (c.node.text ++ text) := by
  cases c with
  | begin n => exact Tracker.move_error h
  | markExecuted n => exact Tracker.move_error (Tracker.move_then_error h)
  | markFailed n reason => exact Tracker.move_error (Tracker.move_then_error h)

theorem apply_gains (h : c.apply t = .ok t') (hst : st.isTerminal = true) : t.Gains t' st ([c.goal].count st) := by
  cases c with
  | begin n =>
    have hnone : [NodeState.executing].count st = 0 := by cases st <;> simp_all [NodeState.isTerminal]
    rw [goal, hnone]
    exact Tracker.begin_gains h hst
  | markExecuted n => exact Tracker.markExecuted_gains h hst
  | markFailed n reason => exact Tracker.markFailed_gains h hst

end TrackerCall

/-- The ways of a node: the calls that take it, where it stands after them, and why it has failed if it has. -/
inductive NodeCourse (n : NodeId) : List TrackerCall → NodeState → Option FailureReason → Prop
  | notStarted : NodeCourse n [] .notStarted none
  | executing : NodeCourse n [.begin n] .executing none
  | executed : NodeCourse n [.begin n, .markExecuted n] .executed none
  | failed (reason : FailureReason) : NodeCourse n [.begin n, .markFailed n reason] .failed (some reason)

namespace NodeCourse
variable {n : NodeId} {calls : List TrackerCall} {st : NodeState} {r : Option FailureReason}

/-- A call from where the node stands takes it on. -/
theorem next {c : TrackerCall} (h : NodeCourse n calls c.source r) (hc : c.node = n) :
    NodeCourse n (calls ++ [c]) c.goal (c.reason?.or r) := by
  cases c with
  | begin m =>
    cases hc
    cases h
    exact .executing
  | markExecuted m =>
    cases hc
    cases h
    exact .executed
  | markFailed m reason =>
    cases hc
    cases h
    exact .failed reason

theorem isSome_iff (h : NodeCourse n calls st r) : r.isSome = true ↔ st = .failed := by
  cases h <;> simp

theorem calls_eq {reason : FailureReason} (h : NodeCourse n calls st (some reason)) :
    calls = [.begin n, .markFailed n reason] := by
  cases h
  rfl

end NodeCourse

namespace Tracker

/-! ### Calls in a row -/

/-- The tracker after the call; if it is refused, the tracker is the same. -/
def call (t : Tracker) (c : TrackerCall) : Tracker :=
  match c.apply t with
  | .ok t' => t'
  | .error _ => t

def after (t : Tracker) (calls : List TrackerCall) : Tracker := calls.foldl call t

/-- Those of the calls that are granted, in order. -/
def granted (t : Tracker) : List TrackerCall → List TrackerCall
  | [] => []
  | c :: rest =>
    match c.apply t with
    | .ok t' => c :: granted t' rest
    | .error _ => granted t rest

variable {t t' : Tracker} {c : TrackerCall} {calls : List TrackerCall} {count : Nat} {gs : List TrackerCall}

theorem call_ok (h : c.apply t = .ok t') : t.call c = t' := by rw [call, h]

theorem call_error {e : Failure} (h : c.apply t = .error e) : t.call c = t := by rw [call, h]

theorem after_concat (t : Tracker) (calls : List TrackerCall) (c : TrackerCall) :
    t.after (calls ++ [c]) = (t.after calls).call c := by
  simp [after]

theorem granted_concat (t : Tracker) (calls : List TrackerCall) (c : TrackerCall) :
    t.granted (calls ++ [c]) = t.granted calls ++ (t.after calls).granted [c] := by
  induction calls generalizing t with
  | nil => rfl
  | cons first rest ih =>
    rw [List.cons_append, granted, granted, after, List.foldl_cons]
    cases h : first.apply t with
    | ok u => rw [call_ok h, List.cons_append, ← after, ← ih]
    | error e => rw [call_error h, ← after, ← ih]

/-! ### What the granted calls say -/

/-- In a tracker of `count` nodes that has granted the calls, every node stands where they have taken it. -/
structure Tracked (count : Nat) (gs : List TrackerCall) (t : Tracker) : Prop where
  size : t.size = count
  course : ∀ n : NodeId, n.index < count →
    ∃ st, t.state? n = some st ∧ NodeCourse n (gs.filter (·.node == n)) st (t.reason? n)
  untracked : ∀ n : NodeId, count ≤ n.index → gs.filter (·.node == n) = [] ∧ t.reason? n = none
  gains : ∀ st : NodeState, st.isTerminal = true → (start count).Gains t st ((gs.map (·.goal)).count st)

namespace Tracked

theorem start (count : Nat) : Tracked count [] (.start count) where
  size := List.length_replicate
  course _ hn := ⟨_, state?_start hn, .notStarted⟩
  untracked _ _ := ⟨rfl, rfl⟩
  gains st _ := .refl _ st

theorem state?_eq_none (h : Tracked count gs t) {n : NodeId} (hn : count ≤ n.index) : t.state? n = none :=
  List.getElem?_eq_none (Nat.le_trans (Nat.le_of_eq h.size) hn)

theorem lt_of_state? (h : Tracked count gs t) {n : NodeId} {st : NodeState} (hst : t.state? n = some st) :
    n.index < count := by
  by_contra hn
  rw [h.state?_eq_none (by omega)] at hst
  cases hst

theorem step (h : Tracked count gs t) (hc : c.apply t = .ok t') : Tracked count (gs ++ [c]) t' := by
  have hmoved := TrackerCall.apply_moved hc
  have hothers : ∀ n, n ≠ c.node → (gs ++ [c]).filter (·.node == n) = gs.filter (·.node == n) ∧
      t'.reason? n = t.reason? n := by
    intro n hn
    rw [TrackerCall.apply_reason? hc, if_neg hn, List.filter_append,
      List.filter_cons_of_neg (by simpa using Ne.symm hn), List.filter_nil, List.append_nil]
    exact ⟨rfl, rfl⟩
  refine ⟨hmoved.size.trans h.size, fun n hn => ?_, fun n hn => ?_, fun st hst => ?_⟩
  · obtain ⟨st, hst, hcourse⟩ := h.course n hn
    by_cases heq : n = c.node
    · subst heq
      rw [hmoved.source] at hst
      cases hst
      refine ⟨c.goal, hmoved.state?_self, ?_⟩
      rw [TrackerCall.apply_reason? hc, if_pos rfl, List.filter_append, List.filter_cons_of_pos (by simp),
        List.filter_nil]
      exact hcourse.next rfl
    · rw [hmoved.state?_of_ne heq, (hothers n heq).1, (hothers n heq).2]
      exact ⟨st, hst, hcourse⟩
  · have heq : n ≠ c.node := by
      rintro rfl
      exact absurd (h.lt_of_state? hmoved.source) (by omega)
    rw [(hothers n heq).1, (hothers n heq).2]
    exact h.untracked n hn
  · rw [List.map_append, List.count_append]
    exact (h.gains st hst).trans (TrackerCall.apply_gains hc hst)

theorem after (count : Nat) (calls : List TrackerCall) :
    Tracked count ((Tracker.start count).granted calls) ((Tracker.start count).after calls) := by
  induction calls using List.reverseRecOn with
  | nil => exact .start count
  | append_singleton calls c ih =>
    rw [granted_concat, after_concat, granted]
    cases hc : c.apply ((Tracker.start count).after calls) with
    | ok t' =>
      rw [call_ok hc]
      exact ih.step hc
    | error e =>
      rw [call_error hc, granted, List.append_nil]
      exact ih

/-- What the tracker has tallied are the nodes in the state. -/
theorem tally_eq (h : Tracked count gs t) (st : NodeState) (hst : st.isTerminal = true) :
    t.tally st = (t.nodesIn st).length ∧ (t.nodesIn st).length = t.states.count st := by
  obtain ⟨htally, hcount⟩ := (h.gains st hst).of_start hst
  exact ⟨by rw [length_nodesIn, htally, hcount], length_nodesIn t st⟩

theorem total_eq (h : Tracked count gs t) (hword : count < pow2 64) : t.counts.total = count := by
  have hsum := StateCounts.add_ofStates t.states
  have hsize : t.states.length = count := h.size
  simp only [StateCounts.ofStates, StateCounts.foldl_tally] at hsum
  rw [counts_eq]
  dsimp only [StateCounts.total]
  have hall : t.states.count .notStarted + t.states.count .executing + t.states.count .executed +
      t.states.count .failed = count := by omega
  rw [hall, Nat.mod_eq_of_lt hword]

theorem granted_iff (h : Tracked count gs t) :
    (∃ t', c.apply t = .ok t') ↔ c.node.index < count ∧ t.state? c.node = some c.source := by
  constructor
  · rintro ⟨t', hc⟩
    have hsource := (TrackerCall.apply_moved hc).source
    exact ⟨h.lt_of_state? hsource, hsource⟩
  · exact fun hc => TrackerCall.exists_apply hc.2

theorem reason_given (h : Tracked count gs t) {n : NodeId} {reason : FailureReason}
    (hr : t.reason? n = some reason) : gs.filter (·.node == n) = [.begin n, .markFailed n reason] := by
  by_cases hn : n.index < count
  · obtain ⟨st, -, hcourse⟩ := h.course n hn
    rw [hr] at hcourse
    exact hcourse.calls_eq
  · rw [(h.untracked n (by omega)).2] at hr
    cases hr

theorem isSome_reason? (h : Tracked count gs t) (n : NodeId) : (t.reason? n).isSome = true ↔ t.isFailed n = true := by
  rw [isFailed, beq_iff_eq]
  by_cases hn : n.index < count
  · obtain ⟨st, hst, hcourse⟩ := h.course n hn
    rw [hcourse.isSome_iff, hst, Option.some_inj]
  · rw [h.state?_eq_none (by omega), (h.untracked n (by omega)).2]
    simp

end Tracked

/-- A call moves the one node for which it is granted, from its source to its goal, and nothing else. -/
theorem call_moves (t : Tracker) (c : TrackerCall) (m : NodeId) :
    (t.call c).state? m = t.state? m ∨
      m = c.node ∧ t.state? m = some c.source ∧ (t.call c).state? m = some c.goal := by
  cases hc : c.apply t with
  | error e => exact .inl (by rw [call_error hc])
  | ok t' =>
    have hmoved := TrackerCall.apply_moved hc
    rw [call_ok hc]
    by_cases heq : m = c.node
    · subst heq
      exact .inr ⟨rfl, hmoved.source, hmoved.state?_self⟩
    · exact .inl (hmoved.state?_of_ne heq)

/-! ### What callers may rely on -/

/-- What holds of a tracker that began with `count` nodes and of which the calls in `gs` have been granted. -/
structure Consistent (count : Nat) (gs : List TrackerCall) (t : Tracker) : Prop where
  course : ∀ n : NodeId, n.index < count →
    ∃ st, t.state? n = some st ∧ NodeCourse n (gs.filter (·.node == n)) st (t.reason? n)
  untracked : ∀ n : NodeId, count ≤ n.index → t.state? n = none ∧ gs.filter (·.node == n) = []
  granted_iff : ∀ c : TrackerCall,
    (∃ t', c.apply t = .ok t') ↔ c.node.index < count ∧ t.state? c.node = some c.source
  moves : ∀ (c : TrackerCall) (m : NodeId), (t.call c).state? m = t.state? m ∨
    m = c.node ∧ t.state? m = some c.source ∧ (t.call c).state? m = some c.goal
  refused : ∀ (c : TrackerCall) (e : Failure), c.apply t = .error e →
    t.call c = t ∧ ∃ text, e = .invariant (c.node.text ++ text)
  executed : t.executedTally = t.executedNodes.length ∧ t.executedNodes.length = t.counts.executed
  failed : t.failedTally = t.failedNodes.length ∧ t.failedNodes.length = t.counts.failed
  /-- A count is a word of 64 bits. -/
  total : count < pow2 64 → t.counts.total = count
  mem_executed : ∀ n, n ∈ t.executedNodes ↔ t.isExecuted n = true
  mem_failed : ∀ n, n ∈ t.failedNodes ↔ t.isFailed n = true
  ascending : (t.executedNodes.Pairwise fun a b => a.index < b.index) ∧
    t.failedNodes.Pairwise fun a b => a.index < b.index
  disjoint : t.executedNodes.Disjoint t.failedNodes
  reason_iff : ∀ n, (t.reason? n).isSome = true ↔ t.isFailed n = true
  /-- The reason of a node is that of the one call that has let it fail. -/
  reason_given : ∀ n reason, t.reason? n = some reason →
    gs.filter (·.node == n) = [.begin n, .markFailed n reason]

/-- However many nodes a tracker has and whatever calls are made to it: after each of them it is consistent with
those that it has granted. -/
theorem after_consistent (count : Nat) (calls : List TrackerCall) :
    ((start count).after calls).Consistent count ((start count).granted calls) := by
  have h := Tracked.after count calls
  generalize (start count).after calls = t at h ⊢
  have hmem : ∀ st n, n ∈ t.nodesIn st ↔ (t.state? n == some st) = true := by
    intro st n
    rw [mem_nodesIn, beq_iff_eq]
  exact
    { course := h.course
      untracked := fun n hn => ⟨h.state?_eq_none hn, (h.untracked n hn).1⟩
      granted_iff := fun _ => h.granted_iff
      moves := t.call_moves
      refused := fun _ _ he => ⟨call_error he, TrackerCall.apply_error he⟩
      executed := by
        rw [counts_eq]
        exact h.tally_eq .executed rfl
      failed := by
        rw [counts_eq]
        exact h.tally_eq .failed rfl
      total := h.total_eq
      mem_executed := hmem .executed
      mem_failed := hmem .failed
      ascending := ⟨t.pairwise_nodesIn .executed, t.pairwise_nodesIn .failed⟩
      disjoint := by
        intro n hexecuted hfailed
        rw [executedNodes, mem_nodesIn] at hexecuted
        rw [failedNodes, mem_nodesIn, hexecuted] at hfailed
        cases hfailed
      reason_iff := h.isSome_reason?
      reason_given := fun _ _ hr => h.reason_given hr }

/-- Calls out of turn, for a node that is not tracked, and after the end of a node are refused. -/
example :
    (start 2).granted [.markExecuted ⟨0⟩, .begin ⟨0⟩, .begin ⟨0⟩, .begin ⟨2⟩, .begin ⟨1⟩, .markFailed ⟨0⟩ (.functionFault "a"),
      .markFailed ⟨0⟩ (.functionFault "b"), .markExecuted ⟨1⟩, .markFailed ⟨1⟩ (.functionFault "c")] =
      [.begin ⟨0⟩, .begin ⟨1⟩, .markFailed ⟨0⟩ (.functionFault "a"), .markExecuted ⟨1⟩] := rfl

end Tracker

end CalcCycle
