import CalcCycle.Proofs.Graph.Walk
import Mathlib.Data.List.Basic
import Mathlib.Logic.Relation

/-! The order of a depth first walk follows the edges exactly where the edges have no cycle. A node is left
after its successors, unless one of them is still being walked from, and that one leads back to it. -/

namespace CalcCycle.DepthFirst

variable {α : Type}

/-- Nothing leads back to where it comes from. -/
def Acyclic (edge : α → α → Prop) : Prop := ∀ a, ¬ Relation.TransGen edge a a

/-- Every node of the list stands before its successors. -/
def Settled (successors : α → List α) (l : List α) : Prop :=
  ∀ front a back, l = front ++ a :: back → ∀ b ∈ successors a, b ∈ back

theorem Settled.nil (successors : α → List α) : Settled successors [] := by
  intro front a back h
  simp at h

theorem Settled.cons {successors : α → List α} {l : List α} {a : α} (ha : ∀ b ∈ successors a, b ∈ l)
    (hl : Settled successors l) : Settled successors (a :: l) := by
  intro front c back h
  cases front with
  | nil =>
    obtain ⟨rfl, rfl⟩ := List.cons.inj h
    exact ha
  | cons d front => exact hl front c back (List.cons.inj h).2

variable [DecidableEq α]

/-- The nodes that a walk has not entered. -/
def Walk.unentered (nodes : List α) (w : Walk α) : List α := nodes.filter (· ∉ w.entered)

theorem Walk.length_unentered_le {nodes : List α} {w w' : Walk α} (h : ∀ x ∈ w.entered, x ∈ w'.entered) :
    (w'.unentered nodes).length ≤ (w.unentered nodes).length := by
  unfold unentered
  refine (List.monotone_filter_right nodes fun x hx => ?_).length_le
  simp only [decide_eq_true_eq] at hx ⊢
  exact fun hmem => hx (h x hmem)

/-- Entering a node leaves fewer to be entered. -/
theorem Walk.length_unentered_lt {nodes : List α} {w : Walk α} {a : α} (hnode : a ∈ nodes) (ha : a ∉ w.entered) :
    (Walk.unentered nodes { w with entered := a :: w.entered }).length < (w.unentered nodes).length := by
  unfold unentered
  have hmem : a ∈ nodes.filter (· ∉ w.entered) := List.mem_filter.2 ⟨hnode, by simpa using ha⟩
  have hsub : (nodes.filter (· ∉ a :: w.entered)).Sublist ((nodes.filter (· ∉ w.entered)).filter (· ≠ a)) := by
    rw [List.filter_filter]
    refine List.monotone_filter_right nodes fun x hx => ?_
    simpa [not_or] using hx
  refine Nat.lt_of_le_of_lt hsub.length_le ?_
  exact List.length_filter_lt_length_iff_exists.2 ⟨a, hmem, by simp⟩

section Walking
variable {nodes : List α} {successors : α → List α}

/-- A walk may go on to the nodes of the list: what it has left is settled, and what it is still walking from
leads to all of them. -/
structure Walk.Faces (successors : α → List α) (w : Walk α) (l : List α) : Prop where
  settled : Settled successors w.left
  leads : ∀ x ∈ w.entered, x ∈ w.left ∨ ∀ b ∈ l, Relation.TransGen (fun a b => b ∈ successors a) x b

/-- What a visit does where its levels are enough for all nodes that have not been entered. -/
def Settles (nodes : List α) (successors : α → List α) (fuel : Nat) : Prop :=
  ∀ a ∈ nodes, ∀ w : Walk α, w.Faces successors [a] → (w.unentered nodes).length ≤ fuel →
    Settled successors (visit successors fuel a w).left ∧ a ∈ (visit successors fuel a w).left

theorem Settles.foldl {fuel : Nat} (h : Settles nodes successors fuel) {l : List α} (hl : ∀ b ∈ l, b ∈ nodes)
    {w : Walk α} (hw : w.Faces successors l) (hfuel : (w.unentered nodes).length ≤ fuel) :
    Settled successors (l.foldl (fun w b => visit successors fuel b w) w).left ∧
      ∀ b ∈ l, b ∈ (l.foldl (fun w b => visit successors fuel b w) w).left := by
  induction l generalizing w with
  | nil => exact ⟨hw.settled, List.forall_mem_nil _⟩
  | cons b rest ih =>
    obtain ⟨hb, hrest⟩ := List.forall_mem_cons.1 hl
    have hleaves := visit_leaves successors fuel b w
    obtain ⟨hsettled, hleft⟩ := h b hb w ⟨hw.settled, fun x hx => (hw.leads x hx).imp_right fun hall => by
      simpa using hall b List.mem_cons_self⟩ hfuel
    have hfaces : (visit successors fuel b w).Faces successors rest := by
      refine ⟨hsettled, fun x hx => ?_⟩
      rcases hleaves.entered x hx with hold | hnew
      · exact (hw.leads x hold).imp (hleaves.left x) fun hall c hc => hall c (List.mem_cons_of_mem _ hc)
      · exact Or.inl hnew
    obtain ⟨hall, hmem⟩ := ih hrest hfaces (Nat.le_trans (Walk.length_unentered_le hleaves.kept) hfuel)
    refine ⟨hall, List.forall_mem_cons.2 ⟨?_, hmem⟩⟩
    exact (Walk.leaves_foldl (fun w b => visit_leaves successors fuel b w) rest _).left b hleft

variable (hacyclic : Acyclic fun a b => b ∈ successors a)
  (hnodes : ∀ a ∈ nodes, ∀ b ∈ successors a, b ∈ nodes)
include hacyclic hnodes

theorem settles (fuel : Nat) : Settles nodes successors fuel := by
  -- a node that is being walked from does not lead to itself
  have hleft : ∀ {a} {w : Walk α}, w.Faces successors [a] → a ∈ w.entered → a ∈ w.left := by
    intro a w hw ha
    exact (hw.leads a ha).resolve_right fun hall => hacyclic a (hall a (List.mem_singleton_self a))
  induction fuel with
  | zero =>
    intro a ha w hw hfuel
    have hentered : a ∈ w.entered := by
      by_contra hnew
      have hmem : a ∈ w.unentered nodes := List.mem_filter.2 ⟨ha, by simpa using hnew⟩
      exact absurd (List.length_pos_of_mem hmem) (by omega)
    exact ⟨hw.settled, hleft hw hentered⟩
  | succ fuel ih =>
    intro a ha w hw hfuel
    rw [visit]
    split_ifs with hentered
    · exact ⟨hw.settled, hleft hw hentered⟩
    have hfewer := Walk.length_unentered_lt ha hentered
    have hfaces : Walk.Faces successors { w with entered := a :: w.entered } (successors a).reverse := by
      refine ⟨hw.settled, fun x hx => ?_⟩
      rcases List.mem_cons.1 hx with rfl | hx
      · exact Or.inr fun b hb => .single (List.mem_reverse.1 hb)
      · refine (hw.leads x hx).imp_right fun hall b hb => ?_
        exact (hall a (List.mem_singleton_self a)).tail (List.mem_reverse.1 hb)
    obtain ⟨hsettled, hmem⟩ := ih.foldl (fun b hb => hnodes a ha b (List.mem_reverse.1 hb)) hfaces (by omega)
    exact ⟨.cons (fun b hb => hmem b (List.mem_reverse.2 hb)) hsettled, List.mem_cons_self⟩

theorem settled_order : Settled successors (order nodes successors) := by
  have hstart : Walk.Faces successors ({} : Walk α) nodes := ⟨.nil successors, by simp⟩
  have hfuel : (Walk.unentered nodes {}).length ≤ nodes.length := List.length_filter_le _ _
  exact ((settles hacyclic hnodes nodes.length).foldl (fun _ h => h) hstart hfuel).1

end Walking

theorem Settled.idxOf_lt {successors : α → List α} {l : List α} (h : Settled successors l) (hnodup : l.Nodup)
    {a b : α} (ha : a ∈ l) (hb : b ∈ successors a) : l.idxOf a < l.idxOf b := by
  obtain ⟨front, back, rfl⟩ := List.append_of_mem ha
  have hback := h front a back rfl b hb
  obtain ⟨-, htail, hapart⟩ := List.nodup_append.1 hnodup
  have hfront : ∀ c ∈ a :: back, c ∉ front := fun c hc hmem => hapart c hmem c hc rfl
  have hne : a ≠ b := fun he => (List.nodup_cons.1 htail).1 (he ▸ hback)
  rw [List.idxOf_append_of_notMem (hfront a List.mem_cons_self),
    List.idxOf_append_of_notMem (hfront b (List.mem_cons_of_mem _ hback)), List.idxOf_cons_self,
    List.idxOf_cons_ne _ hne]
  omega

/-- Edges that lead forward in a list have no cycle. -/
theorem acyclic_of_isForward {l : List α} {edges : List (α × α)} (h : isForward l edges = true) :
    Acyclic fun a b => (a, b) ∈ edges := by
  have hlt : ∀ a b, Relation.TransGen (fun a b => (a, b) ∈ edges) a b → l.idxOf a < l.idxOf b := by
    have hedge : ∀ a b, (a, b) ∈ edges → l.idxOf a < l.idxOf b := fun a b he => by
      simpa using List.all_eq_true.1 h (a, b) he
    intro a b hab
    induction hab with
    | single he => exact hedge a _ he
    | tail _ he ih => exact Nat.lt_trans ih (hedge _ _ he)
  exact fun a ha => absurd (hlt a a ha) (Nat.lt_irrefl _)

/-- The order of the walk follows the edges if and only if they have no cycle. -/
theorem isForward_order_iff {nodes : List α} {edges : List (α × α)} {successors : α → List α}
    (hsuccessors : ∀ a b, b ∈ successors a ↔ (a, b) ∈ edges) (hedges : ∀ e ∈ edges, e.1 ∈ nodes ∧ e.2 ∈ nodes) :
    isForward (order nodes successors) edges = true ↔ Acyclic fun a b => (a, b) ∈ edges := by
  refine ⟨acyclic_of_isForward, fun hacyclic => List.all_eq_true.2 fun ⟨a, b⟩ he => ?_⟩
  have hsettled : Settled successors (order nodes successors) := by
    apply settled_order
    · simpa only [hsuccessors] using hacyclic
    · exact fun c _ d hd => (hedges (c, d) ((hsuccessors c d).1 hd)).2
  have hlt := hsettled.idxOf_lt (nodup_order nodes successors) (mem_order successors (hedges _ he).1)
    ((hsuccessors a b).2 he)
  simpa using hlt

end CalcCycle.DepthFirst
