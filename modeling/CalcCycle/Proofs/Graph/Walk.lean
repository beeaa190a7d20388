import CalcCycle.Graph.DepthFirst
import Mathlib.Data.List.Nodup

/-! A depth first walk leaves every node, and none twice: a node that is being left was entered once,
and what is left below it was entered later. -/

namespace CalcCycle.DepthFirst

variable {α : Type}

structure Walk.Sound (w : Walk α) : Prop where
  nodup : w.left.Nodup
  entered : ∀ x ∈ w.left, x ∈ w.entered

/-- What a walk leaves later it has not entered before. -/
structure Walk.Grows (w w' : Walk α) : Prop where
  entered : ∀ x ∈ w.entered, x ∈ w'.entered
  fresh : ∀ x ∈ w'.left, x ∈ w.left ∨ x ∉ w.entered

theorem Walk.Grows.refl (w : Walk α) : w.Grows w := ⟨fun _ h => h, fun _ h => Or.inl h⟩

theorem Walk.Grows.trans {a b c : Walk α} (h1 : a.Grows b) (h2 : b.Grows c) : a.Grows c := by
  refine ⟨fun x h => h2.entered x (h1.entered x h), ?_⟩
  intro x h
  rcases h2.fresh x h with hb | hb
  · exact h1.fresh x hb
  · exact Or.inr fun ha => hb (h1.entered x ha)

theorem Walk.grows_foldl {step : Walk α → α → Walk α}
    (hstep : ∀ w a, w.Sound → w.Grows (step w a) ∧ (step w a).Sound) (l : List α) {w : Walk α}
    (hw : w.Sound) : w.Grows (l.foldl step w) ∧ (l.foldl step w).Sound := by
  induction l generalizing w with
  | nil => exact ⟨.refl w, hw⟩
  | cons a rest ih =>
    obtain ⟨h1, h2⟩ := hstep w a hw
    obtain ⟨h3, h4⟩ := ih h2
    exact ⟨h1.trans h3, h4⟩

variable [DecidableEq α]

theorem visit_grows (successors : α → List α) (fuel : Nat) (a : α) {w : Walk α} (hw : w.Sound) :
    w.Grows (visit successors fuel a w) ∧ (visit successors fuel a w).Sound := by
  induction fuel generalizing a w with
  | zero => exact ⟨.refl w, hw⟩
  | succ fuel ih =>
    rw [visit]
    split_ifs with ha
    · exact ⟨.refl w, hw⟩
    · have hin : Walk.Sound { w with entered := a :: w.entered } :=
        ⟨hw.nodup, fun x hx => List.mem_cons_of_mem _ (hw.entered x hx)⟩
      obtain ⟨hg, hs⟩ := Walk.grows_foldl (fun w b hw => ih b hw) (successors a).reverse hin
      refine ⟨⟨fun x hx => hg.entered x (List.mem_cons_of_mem _ hx), ?_⟩,
        List.nodup_cons.2 ⟨?_, hs.nodup⟩, ?_⟩
      · intro x hx
        rcases List.mem_cons.1 hx with rfl | hx
        · exact Or.inr ha
        · exact (hg.fresh x hx).imp_right fun hn h => hn (List.mem_cons_of_mem _ h)
      · intro hl
        -- `a` cannot have been left below itself, since it was entered before
        rcases hg.fresh a hl with h | h
        · exact ha (hw.entered a h)
        · exact h List.mem_cons_self
      · intro x hx
        rcases List.mem_cons.1 hx with rfl | hx
        · exact hg.entered _ List.mem_cons_self
        · exact hs.entered x hx

theorem nodup_order (nodes : List α) (successors : α → List α) : (order nodes successors).Nodup := by
  have hstart : Walk.Sound ({} : Walk α) := ⟨List.nodup_nil, by simp⟩
  exact (Walk.grows_foldl (fun w a hw => visit_grows successors nodes.length a hw) nodes hstart).2.nodup

/-- Whatever a walk enters it also leaves. -/
structure Walk.Leaves (w w' : Walk α) : Prop where
  kept : ∀ x ∈ w.entered, x ∈ w'.entered
  left : ∀ x ∈ w.left, x ∈ w'.left
  entered : ∀ x ∈ w'.entered, x ∈ w.entered ∨ x ∈ w'.left

omit [DecidableEq α] in
theorem Walk.Leaves.refl (w : Walk α) : w.Leaves w := ⟨fun _ h => h, fun _ h => h, fun _ h => Or.inl h⟩

omit [DecidableEq α] in
theorem Walk.Leaves.trans {a b c : Walk α} (h1 : a.Leaves b) (h2 : b.Leaves c) : a.Leaves c := by
  refine ⟨fun x h => h2.kept x (h1.kept x h), fun x h => h2.left x (h1.left x h), ?_⟩
  intro x h
  rcases h2.entered x h with hb | hc
  · exact (h1.entered x hb).imp_right (h2.left x)
  · exact Or.inr hc

omit [DecidableEq α] in
theorem Walk.leaves_foldl {step : Walk α → α → Walk α} (hstep : ∀ (w : Walk α) (a : α), w.Leaves (step w a))
    (l : List α) (w : Walk α) : w.Leaves (l.foldl step w) := by
  induction l generalizing w with
  | nil => exact .refl w
  | cons a rest ih => exact (hstep w a).trans (ih (step w a))

theorem visit_leaves (successors : α → List α) (fuel : Nat) (a : α) (w : Walk α) :
    w.Leaves (visit successors fuel a w) := by
  induction fuel generalizing a w with
  | zero => exact .refl w
  | succ fuel ih =>
    rw [visit]
    split_ifs with ha
    · exact .refl w
    · have hinner := Walk.leaves_foldl (fun w b => ih b w) (successors a).reverse
        { w with entered := a :: w.entered }
      refine ⟨fun x hx => hinner.kept x (List.mem_cons_of_mem _ hx),
        fun x hx => List.mem_cons_of_mem _ (hinner.left x hx), ?_⟩
      intro x hx
      rcases hinner.entered x hx with h | h
      · rcases List.mem_cons.1 h with rfl | h
        · exact Or.inr List.mem_cons_self
        · exact Or.inl h
      · exact Or.inr (List.mem_cons_of_mem _ h)

theorem mem_entered_visit (successors : α → List α) (fuel : Nat) (a : α) (w : Walk α) :
    a ∈ (visit successors (fuel + 1) a w).entered := by
  rw [visit]
  split_ifs with ha
  · exact ha
  · exact (Walk.leaves_foldl (fun w b => visit_leaves successors fuel b w) _ _).kept a List.mem_cons_self

theorem mem_order {nodes : List α} (successors : α → List α) {a : α} (h : a ∈ nodes) :
    a ∈ order nodes successors := by
  have hpos := List.length_pos_of_mem h
  obtain ⟨fuel, hfuel⟩ := Nat.exists_eq_succ_of_ne_zero (n := nodes.length) (by omega)
  have hwalk : ∀ (l : List α) (w : Walk α),
      w.Leaves (l.foldl (fun w b => visit successors nodes.length b w) w) :=
    fun l w => Walk.leaves_foldl (fun w b => visit_leaves successors nodes.length b w) l w
  have hentered : ∀ l : List α, a ∈ l →
      a ∈ (l.foldl (fun w b => visit successors nodes.length b w) {}).entered := by
    intro l hl
    obtain ⟨front, back, rfl⟩ := List.append_of_mem hl
    rw [List.foldl_append, List.foldl_cons]
    refine (hwalk back _).kept a ?_
    rw [hfuel]
    exact mem_entered_visit successors fuel a _
  exact ((hwalk nodes {}).entered a (hentered nodes h)).resolve_left List.not_mem_nil

end CalcCycle.DepthFirst
