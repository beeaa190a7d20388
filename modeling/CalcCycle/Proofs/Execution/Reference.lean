import CalcCycle.Proofs.Execution.Ownership
import CalcCycle.Proofs.Graph.WellFormed
import CalcCycle.Proofs.Sorted
import Mathlib.Data.List.Induction

/-! The sequential reference: node after node, in the order of the graph. What it leaves is the only
outcome in which every node has ended as the values of its inputs say, so any run that leaves such an
outcome leaves the same. -/

namespace CalcCycle

/-- What a run leaves: states, reasons of failures, and values. -/
structure Ledger where
  states : List NodeState
  reasons : SortedMap NodeId FailureReason := .empty
  values : Values

namespace Ledger

def start (nodeCount : Nat) (V : Values) : Ledger :=
  { states := List.replicate nodeCount .notStarted, values := V }

def settle (l : Ledger) (n : Node) : Verdict → Ledger
  | .executed vs =>
    { l with
      states := l.states.set n.id.index .executed
      values := vs.foldl (fun V v => V.insert v.specification v.payload) l.values }
  | .failed reason =>
    { l with
      states := l.states.set n.id.index .failed
      reasons := l.reasons.insert n.id reason }

/-- Where an input is absent the node fails for what is missing; else the calculation is called on all
of its inputs. -/
def visit (answer : Node → Inputs → Outcome) (l : Ledger) (n : Node) : Ledger :=
  l.settle n (n.judge l.values (answer n))

/-- Graph after graph, and in each graph node after node. -/
def visitAll (answer : Node → Inputs → Outcome) (graphs : List Graph) (l : Ledger) : Ledger :=
  (graphs.flatMap (·.nodes)).foldl (visit answer) l

/-- A tracker with the states and the reasons of the ledger. -/
def tracker (l : Ledger) : Tracker := { states := l.states, reasons := l.reasons }

end Ledger

/-! ### One node -/

theorem get?_foldl_insert {vs : List Computed} (h : (vs.map (·.specification)).Nodup) (V : Values)
    (spec : Specification) :
    (vs.foldl (fun V v => V.insert v.specification v.payload) V).get? spec =
      (valueIn vs spec).or (V.get? spec) := by
  induction vs generalizing V with
  | nil => simp [valueIn]
  | cons v rest ih =>
    obtain ⟨hv, hrest⟩ := List.nodup_cons.1 h
    rw [List.foldl_cons, ih hrest, SortedMap.get?_insert]
    by_cases he : spec = v.specification
    · have hnone : valueIn rest spec = none :=
        valueIn_eq_none fun u hu hus => hv (List.mem_map.2 ⟨u, hu, hus.trans he⟩)
      rw [hnone, if_pos he]
      simp [valueIn, he]
    · rw [if_neg he]
      simp [valueIn, Ne.symm he]

namespace Ledger
variable {l : Ledger} {n : Node} {answer : Node → Inputs → Outcome}

theorem state?_settle_of_ne (v : Verdict) {id : NodeId} (h : id ≠ n.id) :
    (l.settle n v).tracker.state? id = l.tracker.state? id ∧
      (l.settle n v).tracker.reason? id = l.tracker.reason? id := by
  have hne : n.id.index ≠ id.index := fun he => h (NodeId.index_injective he.symm)
  unfold Tracker.state? Tracker.reason? tracker
  cases v with
  | executed vs => exact ⟨List.getElem?_set_ne hne, rfl⟩
  | failed reason => exact ⟨List.getElem?_set_ne hne, by simp [settle, SortedMap.get?_insert, h]⟩

theorem values_visit {spec : Specification} (h : spec ∉ n.outputs) :
    (visit answer l n).values.get? spec = l.values.get? spec := by
  unfold visit
  cases hv : n.judge l.values (answer n) with
  | failed reason => rfl
  | executed vs =>
    obtain ⟨hdeclared, hnodup⟩ := Node.judge_executed hv
    have hnone : valueIn vs spec = none := valueIn_eq_none fun u hu he => h (he ▸ hdeclared u hu)
    rw [settle, get?_foldl_insert hnodup, hnone, Option.none_or]

/-- A node that is visited ends as it is judged. -/
theorem visit_shows (h : n.Untouched l.tracker l.values) :
    n.Shows (visit answer l n).tracker (visit answer l n).values (n.judge l.values (answer n)).state
      (n.judge l.values (answer n)).reason? (n.judge l.values (answer n)).value? := by
  have hlt : n.id.index < l.states.length := (List.getElem?_eq_some_iff.1 h.state).1
  have hreason := h.reason
  unfold visit
  cases hv : n.judge l.values (answer n) with
  | failed reason =>
    refine ⟨List.getElem?_set_self hlt, ?_, h.outputs⟩
    simp [Tracker.reason?, tracker, settle, SortedMap.get?_insert, Verdict.reason?]
  | executed vs =>
    refine ⟨List.getElem?_set_self hlt, hreason, fun spec hspec => ?_⟩
    rw [settle, get?_foldl_insert (Node.judge_executed hv).2, h.outputs spec hspec, Option.or_none]
    rfl

end Ledger

/-! ### All nodes of a graph -/

/-- From `t₀` and `V₀` on all nodes have ended as they are judged over `V`, and nothing else has
changed. -/
structure Settles (answer : Node → Inputs → Outcome) (nodes : List Node) (t₀ : Tracker) (V₀ : Values)
    (t : Tracker) (V : Values) : Prop where
  ended : ∀ n ∈ nodes, n.Shows t V (n.judge V (answer n)).state (n.judge V (answer n)).reason?
    (n.judge V (answer n)).value?
  states : ∀ id, id ∉ nodes.map (·.id) → t.state? id = t₀.state? id ∧ t.reason? id = t₀.reason? id
  values : ∀ spec, (∀ n ∈ nodes, spec ∉ n.outputs) → V.get? spec = V₀.get? spec

theorem Ledger.foldl_visit_settles (answer : Node → Inputs → Outcome) {nodes : List Node} {l : Ledger}
    (hbefore : nodes.Pairwise Node.Before) (hown : ∀ n ∈ nodes, ∀ spec ∈ n.inputs, spec ∉ n.outputs)
    (hnew : ∀ n ∈ nodes, n.Untouched l.tracker l.values) :
    Settles answer nodes l.tracker l.values (nodes.foldl (visit answer) l).tracker
      (nodes.foldl (visit answer) l).values := by
  induction nodes generalizing l with
  | nil => exact ⟨by simp, fun _ _ => ⟨rfl, rfl⟩, fun _ _ => rfl⟩
  | cons n rest ih =>
    obtain ⟨hfirst, hbefore⟩ := List.pairwise_cons.1 hbefore
    obtain ⟨hn, hrest⟩ := List.forall_mem_cons.1 hnew
    obtain ⟨hown, howns⟩ := List.forall_mem_cons.1 hown
    have hstill : ∀ m ∈ rest, m.Untouched (visit answer l n).tracker (visit answer l n).values := by
      intro m hm
      obtain ⟨hstate, hreason⟩ := state?_settle_of_ne (n.judge l.values (answer n)) (hfirst m hm).id.symm
      exact (hrest m hm).frame ⟨hstate, hreason, fun spec hspec =>
        values_visit fun hout => (hfirst m hm).apart spec hout hspec⟩
    have hlater := ih hbefore howns hstill
    rw [List.foldl_cons]
    set last := rest.foldl (visit answer) (visit answer l n)
    refine ⟨?_, ?_, ?_⟩
    · intro m hm
      rcases List.mem_cons.1 hm with rfl | hm
      · have hnot : m.id ∉ rest.map (·.id) := fun hmem => by
          obtain ⟨b, hb, he⟩ := List.mem_map.1 hmem
          exact (hfirst b hb).id he.symm
        obtain ⟨hstate, hreason⟩ := hlater.states m.id hnot
        have hin : ∀ spec ∈ m.inputs, last.values.get? spec = l.values.get? spec := by
          intro spec hspec
          rw [hlater.values spec fun b hb => (hfirst b hb).inputs spec hspec]
          exact values_visit (hown spec hspec)
        rw [Node.judge_congr hin]
        exact (visit_shows hn).frame ⟨hstate, hreason, fun spec hspec =>
          hlater.values spec fun b hb => (hfirst b hb).apart spec hspec⟩
      · exact hlater.ended m hm
    · intro id hid
      rw [List.map_cons, List.mem_cons, not_or] at hid
      obtain ⟨hstate, hreason⟩ := hlater.states id hid.2
      obtain ⟨hstate', hreason'⟩ := state?_settle_of_ne (n.judge l.values (answer n)) hid.1
      exact ⟨hstate.trans hstate', hreason.trans hreason'⟩
    · intro spec hspec
      obtain ⟨hspec, hspecs⟩ := List.forall_mem_cons.1 hspec
      rw [hlater.values spec hspecs]
      exact values_visit hspec

namespace Ledger

/-- Visiting nodes does not concern a node that has none of their ids and none of their outputs. -/
theorem foldl_visit_elsewhere (answer : Node → Inputs → Outcome) (nodes : List Node) (l : Ledger) {n : Node}
    (hn : ∀ a ∈ nodes, a.id ≠ n.id ∧ a.Apart n) :
    n.Unaffected l.tracker l.values (nodes.foldl (visit answer) l).tracker
      (nodes.foldl (visit answer) l).values := by
  induction nodes generalizing l with
  | nil => exact ⟨rfl, rfl, fun _ _ => rfl⟩
  | cons a rest ih =>
    obtain ⟨⟨hid, hout⟩, hrest⟩ := List.forall_mem_cons.1 hn
    obtain ⟨hstate, hreason⟩ := state?_settle_of_ne (a.judge l.values (answer a)) hid.symm
    have hfirst : n.Unaffected l.tracker l.values (visit answer l a).tracker (visit answer l a).values :=
      ⟨hstate, hreason, fun spec hspec => values_visit fun hmem => hout spec hmem hspec⟩
    exact hfirst.trans (ih _ hrest)

theorem visitAll_cons (answer : Node → Inputs → Outcome) (g : Graph) (rest : List Graph) (l : Ledger) :
    visitAll answer (g :: rest) l = visitAll answer rest (g.nodes.foldl (visit answer) l) := by
  unfold visitAll
  rw [List.flatMap_cons, List.foldl_append]

theorem visitAll_elsewhere (answer : Node → Inputs → Outcome) (graphs : List Graph) (l : Ledger) {n : Node}
    (hn : ∀ g ∈ graphs, ∀ a ∈ g.nodes, a.id ≠ n.id ∧ a.Apart n) :
    n.Unaffected l.tracker l.values (visitAll answer graphs l).tracker (visitAll answer graphs l).values := by
  apply foldl_visit_elsewhere
  intro a ha
  obtain ⟨g, hg, ha⟩ := List.mem_flatMap.1 ha
  exact hn g hg a ha

end Ledger

/-- Some nodes have ended as they are judged over `V`, and with a node those that produce what it reads.
What no node produces is as in `V₀`. -/
structure SettlesSome (answer : Node → Inputs → Outcome) (nodes : List Node) (V₀ : Values)
    (done : Node → Prop) (t : Tracker) (V : Values) : Prop where
  ended : ∀ n ∈ nodes, done n → n.Shows t V (n.judge V (answer n)).state (n.judge V (answer n)).reason?
    (n.judge V (answer n)).value?
  closed : ∀ n ∈ nodes, done n → ∀ a ∈ nodes, (∃ spec ∈ n.inputs, spec ∈ a.outputs) → done a
  values : ∀ spec, (∀ n ∈ nodes, spec ∉ n.outputs) → V.get? spec = V₀.get? spec

variable {answer : Node → Inputs → Outcome} {nodes : List Node} {t₀ t t' : Tracker} {V₀ V₀' V V' : Values}
  {done : Node → Prop}

theorem Settles.only (h : Settles answer nodes t₀ V₀ t V)
    (hclosed : ∀ n ∈ nodes, done n → ∀ a ∈ nodes, (∃ spec ∈ n.inputs, spec ∈ a.outputs) → done a) :
    SettlesSome answer nodes V₀ done t V :=
  ⟨fun n hn _ => h.ended n hn, hclosed, h.values⟩

namespace SettlesSome

/-- A value is the same in two outcomes if it was at the beginning or if its producer is done and judged the
same. -/
theorem value_eq (h : SettlesSome answer nodes V₀ done t V) (h' : SettlesSome answer nodes V₀' done t' V')
    {spec : Specification} (hstart : (∀ n ∈ nodes, spec ∉ n.outputs) → V₀.get? spec = V₀'.get? spec)
    (hjudge : ∀ n ∈ nodes, spec ∈ n.outputs → done n ∧ n.judge V (answer n) = n.judge V' (answer n)) :
    V.get? spec = V'.get? spec := by
  by_cases hproduced : ∃ n ∈ nodes, spec ∈ n.outputs
  · obtain ⟨n, hn, hout⟩ := hproduced
    obtain ⟨hdone, he⟩ := hjudge n hn hout
    rw [(h.ended n hn hdone).outputs spec hout, (h'.ended n hn hdone).outputs spec hout, he]
  · have hnone : ∀ n ∈ nodes, spec ∉ n.outputs := fun n hn hout => hproduced ⟨n, hn, hout⟩
    rw [h.values spec hnone, h'.values spec hnone, hstart hnone]

/-- A node that is done in two outcomes is judged the same: its inputs are known when its predecessors are,
and those are done as well. -/
theorem judge_eq (hbefore : nodes.Pairwise Node.Before)
    (hown : ∀ n ∈ nodes, ∀ spec ∈ n.inputs, spec ∉ n.outputs) (h : SettlesSome answer nodes V₀ done t V)
    (h' : SettlesSome answer nodes V₀' done t' V')
    (hstart : ∀ n ∈ nodes, done n → ∀ spec ∈ n.inputs, (∀ a ∈ nodes, spec ∉ a.outputs) →
      V₀.get? spec = V₀'.get? spec)
    (front back : List Node) (hsplit : nodes = front ++ back) :
    ∀ n ∈ front, done n → n.judge V (answer n) = n.judge V' (answer n) := by
  induction front using List.reverseRecOn generalizing back with
  | nil => simp
  | append_singleton front n ih =>
    intro m hm hdone
    rw [List.append_assoc, List.singleton_append] at hsplit
    have hfront := ih (n :: back) hsplit
    rcases List.mem_append.1 hm with hm | hm
    · exact hfront m hm hdone
    obtain rfl := List.mem_singleton.1 hm
    have hmem : m ∈ nodes := by simp [hsplit]
    rw [hsplit] at hbefore
    have hlater := (List.pairwise_cons.1 (List.pairwise_append.1 hbefore).2.1).1
    apply Node.judge_congr
    intro spec hspec
    apply h.value_eq h' (hstart m hmem hdone spec hspec)
    intro a ha hout
    have hadone := h.closed m hmem hdone a ha ⟨spec, hspec, hout⟩
    refine ⟨hadone, ?_⟩
    -- what the node reads is produced before it
    have hplace := ha
    rw [hsplit, List.mem_append, List.mem_cons] at hplace
    rcases hplace with hin | rfl | hback
    · exact hfront a hin hadone
    · exact absurd hout (hown a ha spec hspec)
    · exact absurd hout ((hlater a hback).inputs spec hspec)

end SettlesSome

namespace Settles

/-- There is one outcome only. -/
theorem unique (hbefore : nodes.Pairwise Node.Before)
    (hown : ∀ n ∈ nodes, ∀ spec ∈ n.inputs, spec ∉ n.outputs) (h : Settles answer nodes t₀ V₀ t V)
    (h' : Settles answer nodes t₀ V₀ t' V') :
    (∀ id, t.state? id = t'.state? id ∧ t.reason? id = t'.reason? id) ∧
      ∀ spec, V.get? spec = V'.get? spec := by
  have hall : SettlesSome answer nodes V₀ (fun _ => True) t V := h.only fun _ _ _ _ _ _ => trivial
  have hall' : SettlesSome answer nodes V₀ (fun _ => True) t' V' := h'.only fun _ _ _ _ _ _ => trivial
  have hjudge := fun n hn => hall.judge_eq hbefore hown hall' (fun _ _ _ _ _ _ => rfl) nodes []
    (List.append_nil _).symm n hn trivial
  refine ⟨?_, ?_⟩
  · intro id
    by_cases hid : id ∈ nodes.map (·.id)
    · obtain ⟨n, hn, rfl⟩ := List.mem_map.1 hid
      have hshows := h.ended n hn
      have hshows' := h'.ended n hn
      rw [hjudge n hn] at hshows
      exact ⟨hshows.state.trans hshows'.state.symm, hshows.reason.trans hshows'.reason.symm⟩
    · obtain ⟨hstate, hreason⟩ := h.states id hid
      obtain ⟨hstate', hreason'⟩ := h'.states id hid
      exact ⟨hstate.trans hstate'.symm, hreason.trans hreason'.symm⟩
  · intro spec
    apply hall.value_eq hall' fun _ => rfl
    intro n hn _
    exact ⟨trivial, hjudge n hn⟩

end Settles

end CalcCycle
