import CalcCycle.Proofs.Graph.Assembly

/-! Which blueprints are built. Every calculation applies to its target, no value is declared by two
registrations, and what the registrations for one target read of one another leads to no cycle. A blueprint
that is refused is refused for its first calculation that does not apply, or else for a value that two
registrations declare or a target with a cycle. -/

namespace CalcCycle

/-- Edges that are edges of another kind somewhere else have no cycle if those have none. -/
theorem DepthFirst.Acyclic.lift {α β : Type} {edge : α → α → Prop} {edge' : β → β → Prop}
    (h : Acyclic edge') (place : α → β) (hedge : ∀ a a', edge a a' → edge' (place a) (place a')) : Acyclic edge :=
  fun a ha => h (place a) (Relation.TransGen.lift place hedge a a ha)

/-- The calculation is fit for the target. -/
def Registration.Applicable (r : Registration) : Prop := r.calculation.appliesTo r.target = true

theorem Registration.checkApplicable_ok {r : Registration} (h : r.Applicable) : r.checkApplicable = .ok () := if_pos h

theorem Registration.checkApplicable_error {r : Registration} (h : ¬ r.Applicable) :
    r.checkApplicable = .error (.notApplicable r.calculation.name r.target) := if_neg h

namespace Blueprint
variable {b : Blueprint} {m : Model}

/-- Of the registrations for the target, the one at the place `i` reads a value that the one at `j` declares. -/
def Feeds (b : Blueprint) (t : Target) (j i : Nat) : Prop :=
  ∃ p r, b.registrations[j]? = some p ∧ b.registrations[i]? = some r ∧ p.target = t ∧ r.target = t ∧
    ∃ s ∈ b.inputsOf r, s ∈ p.results

/-- Two registrations declare the value. -/
def Contested (b : Blueprint) (s : Specification) : Prop :=
  ∃ (i j : Nat) (p r : Registration), i ≠ j ∧ b.registrations[i]? = some p ∧ b.registrations[j]? = some r ∧
    s ∈ p.results ∧ s ∈ r.results

structure Buildable (b : Blueprint) : Prop where
  applicable : ∀ r ∈ b.registrations, r.Applicable
  apart : ∀ s, ¬ b.Contested s
  acyclic : ∀ t, DepthFirst.Acyclic (b.Feeds t)

/-- Why a blueprint is refused. -/
inductive Refusal (b : Blueprint) : GraphError → Prop
  | notApplicable {front r back} (split : b.registrations = front ++ r :: back)
    (before : ∀ p ∈ front, p.Applicable) (here : ¬ r.Applicable) :
    Refusal b (.notApplicable r.calculation.name r.target)
  | duplicateProducer {s} (applicable : ∀ r ∈ b.registrations, r.Applicable) (contested : b.Contested s) :
    Refusal b (.duplicateProducer s)
  | circularDependency {t} (applicable : ∀ r ∈ b.registrations, r.Applicable)
    (cyclic : ¬ DepthFirst.Acyclic (b.Feeds t)) : Refusal b (.circularDependency t)

theorem Refusal.not_buildable {e : GraphError} (h : b.Refusal e) : ¬ b.Buildable := by
  intro hb
  cases h with
  | notApplicable split before here => exact here (hb.applicable _ (by simp [split]))
  | duplicateProducer applicable contested => exact hb.apart _ contested
  | circularDependency applicable cyclic => exact cyclic (hb.acyclic _)

/-! ### Calculations that apply -/

theorem forM_checkApplicable_ok {rs : List Registration} (h : ∀ r ∈ rs, r.Applicable) :
    rs.forM Registration.checkApplicable = .ok () := by
  induction rs with
  | nil => rfl
  | cons r rest ih =>
    obtain ⟨hr, hrest⟩ := List.forall_mem_cons.1 h
    change (do r.checkApplicable; rest.forM Registration.checkApplicable) = _
    rw [Registration.checkApplicable_ok hr]
    exact ih hrest

/-- The first calculation that does not apply is the one that is named. -/
theorem forM_checkApplicable_error {front back : List Registration} {r : Registration}
    (hfront : ∀ p ∈ front, p.Applicable) (hr : ¬ r.Applicable) :
    (front ++ r :: back).forM Registration.checkApplicable =
      .error (.notApplicable r.calculation.name r.target) := by
  induction front with
  | nil =>
    change (do r.checkApplicable; back.forM Registration.checkApplicable) = _
    rw [Registration.checkApplicable_error hr]
    rfl
  | cons p rest ih =>
    obtain ⟨hp, hrest⟩ := List.forall_mem_cons.1 hfront
    change (do p.checkApplicable; (rest ++ r :: back).forM Registration.checkApplicable) = _
    rw [Registration.checkApplicable_ok hp]
    exact ih hrest

theorem applicable_or_first (rs : List Registration) :
    (∀ r ∈ rs, r.Applicable) ∨
      ∃ front r back, rs = front ++ r :: back ∧ (∀ p ∈ front, p.Applicable) ∧ ¬ r.Applicable := by
  induction rs with
  | nil => exact Or.inl (List.forall_mem_nil _)
  | cons r rest ih =>
    by_cases hr : r.Applicable
    · refine ih.imp (fun h => List.forall_mem_cons.2 ⟨hr, h⟩) ?_
      rintro ⟨front, p, back, rfl, hfront, hp⟩
      exact ⟨r :: front, p, back, rfl, List.forall_mem_cons.2 ⟨hr, hfront⟩, hp⟩
    · exact Or.inr ⟨[], r, rest, rfl, List.forall_mem_nil _, hr⟩

theorem build_of_not_applicable {front back : List Registration} {r : Registration}
    (hsplit : b.registrations = front ++ r :: back) (hfront : ∀ p ∈ front, p.Applicable) (hr : ¬ r.Applicable) :
    b.build = .error (.notApplicable r.calculation.name r.target) := by
  unfold build
  rw [hsplit, forM_checkApplicable_error hfront hr]
  rfl

theorem build_of_applicable (h : ∀ r ∈ b.registrations, r.Applicable) :
    b.build = (do let graphs ← b.targets.mapM (b.graphFor b.nodes); Model.ofGraphs graphs) := by
  unfold build
  rw [forM_checkApplicable_ok h]
  rfl

/-! ### Nodes and registrations -/

/-- The nodes for a target feed one another as the registrations do. -/
theorem feeds_iff {t : Target} {p c : NodeId} :
    Graph.Feeds (b.nodes.filter (·.target == t)) p c ↔ b.Feeds t p.index c.index := by
  constructor
  · rintro ⟨a, ha, n, hn, rfl, rfl, s, hs, hout⟩
    obtain ⟨ha, hat⟩ := List.mem_filter.1 ha
    obtain ⟨hn, hnt⟩ := List.mem_filter.1 hn
    obtain ⟨q, hq, hqa⟩ := mem_nodes.1 ha
    obtain ⟨r, hr, hrn⟩ := mem_nodes.1 hn
    rw [hqa] at hat hout
    rw [hrn] at hnt hs
    exact ⟨q, r, hq, hr, beq_iff_eq.1 hat, beq_iff_eq.1 hnt, s, hs, mem_distinct.1 hout⟩
  · rintro ⟨q, r, hq, hr, hqt, hrt, s, hs, hout⟩
    refine ⟨b.nodeAt p.index q, ?_, b.nodeAt c.index r, ?_, rfl, rfl, s, hs, mem_distinct.2 hout⟩
    · exact List.mem_filter.2 ⟨mem_nodes.2 ⟨q, hq, rfl⟩, beq_iff_eq.2 hqt⟩
    · exact List.mem_filter.2 ⟨mem_nodes.2 ⟨r, hr, rfl⟩, beq_iff_eq.2 hrt⟩

theorem acyclic_iff {t : Target} :
    DepthFirst.Acyclic (Graph.Feeds (b.nodes.filter (·.target == t))) ↔ DepthFirst.Acyclic (b.Feeds t) :=
  ⟨fun h => h.lift NodeId.mk fun _ _ hfeeds => feeds_iff.2 hfeeds,
    fun h => h.lift NodeId.index fun _ _ hfeeds => feeds_iff.1 hfeeds⟩

/-- A value that two nodes declare is one that two registrations declare. -/
theorem contested_of_nodes {a n : Node} (ha : a ∈ b.nodes) (hn : n ∈ b.nodes) (hne : a.id ≠ n.id)
    {s : Specification} (hsa : s ∈ a.outputs) (hsn : s ∈ n.outputs) : b.Contested s := by
  obtain ⟨p, hp, hpa⟩ := mem_nodes.1 ha
  obtain ⟨r, hr, hrn⟩ := mem_nodes.1 hn
  rw [hpa] at hsa
  rw [hrn] at hsn
  exact ⟨_, _, p, r, fun he => hne (NodeId.index_injective he), hp, hr, mem_distinct.1 hsa, mem_distinct.1 hsn⟩

/-! ### What can be refused -/

theorem graphFor_refusal {t : Target} {e : GraphError} (happlicable : ∀ r ∈ b.registrations, r.Applicable)
    (h : b.graphFor b.nodes t = .error e) : b.Refusal e := by
  rcases Graph.ofNodes_error_iff.1 h with ⟨front, n, back, hsplit, hviolates, -⟩ | ⟨-, hcyclic, rfl⟩
  · have hids : ((b.nodes.filter (·.target == t)).map (·.id)).Nodup :=
      b.nodup_ids.sublist (List.filter_sublist.map _)
    rw [hsplit, List.map_append, List.map_cons] at hids
    rw [List.nil_append] at hviolates
    have hmem : ∀ a ∈ front ++ n :: back, a ∈ b.nodes ∧ a.target = t := by
      intro a ha
      rw [← hsplit, List.mem_filter, beq_iff_eq] at ha
      exact ha
    have hnew : ∀ a ∈ front, a.id ≠ n.id := fun a ha he =>
      (List.nodup_append.1 hids).2.2 _ (List.mem_map_of_mem ha) _ List.mem_cons_self he
    cases hviolates with
    | target other => exact absurd (hmem n (by simp)).2 other
    | id same used =>
      obtain ⟨a, ha, he⟩ := used
      exact absurd he (hnew a ha)
    | output same new outputs free taken =>
      obtain ⟨a, ha, hs⟩ := taken
      refine .duplicateProducer happlicable
        (contested_of_nodes (hmem a (by simp [ha])).1 (hmem n (by simp)).1 (hnew a ha) hs ?_)
      simp [outputs]
  · exact .circularDependency happlicable fun hacyclic => hcyclic (acyclic_iff.2 hacyclic)

theorem ofGraphs_refusal {graphs : List Graph} {e : GraphError}
    (happlicable : ∀ r ∈ b.registrations, r.Applicable)
    (hgraphs : b.targets.mapM (b.graphFor b.nodes) = .ok graphs) (h : Model.ofGraphs graphs = .error e) :
    b.Refusal e := by
  obtain ⟨front, g, back, rfl, hviolates⟩ := Model.ofGraphs_error h
  have hperm := flatMap_nodes_perm hgraphs
  have hids := (hperm.map (·.id)).nodup_iff.2 b.nodup_ids
  rw [Model.total_nodes, hperm.length_eq, length_nodes] at hviolates
  have hmem : ∀ x ∈ front ++ g :: back, ∀ n ∈ x.nodes, n ∈ b.nodes := fun x hx n hn =>
    hperm.mem_iff.1 (List.mem_flatMap.2 ⟨x, hx, hn⟩)
  rw [List.flatMap_append, List.flatMap_cons, List.map_append, List.map_append, List.nodup_append] at hids
  -- the nodes of the graphs before have other ids
  have hfront : ∀ x ∈ front, ∀ a ∈ x.nodes, ∀ n ∈ g.nodes, a.id ≠ n.id := fun x hx a ha n hn =>
    hids.2.2 _ (List.mem_map_of_mem (List.mem_flatMap.2 ⟨x, hx, ha⟩)) _
      (List.mem_append_left _ (List.mem_map_of_mem hn))
  cases hviolates with
  | range node beyond =>
    obtain ⟨r, hr, -⟩ := mem_nodes.1 (hmem g (by simp) _ node)
    obtain ⟨hlt, -⟩ := List.getElem?_eq_some_iff.1 hr
    omega
  | @id before n after nodes used =>
    obtain ⟨a, ha | ⟨x, hx, ha⟩, he⟩ := used
    · have hown := (List.nodup_append.1 hids.2.1).1
      rw [nodes, List.map_append, List.map_cons] at hown
      exact absurd he ((List.nodup_append.1 hown).2.2 _ (List.mem_map_of_mem ha) _ List.mem_cons_self)
    · exact absurd he (hfront x hx a ha n (by simp [nodes]))
  | output here there =>
    obtain ⟨n, hn, hs⟩ := Graph.mem_outputs.1 here
    obtain ⟨x, hx, hsx⟩ := there
    obtain ⟨a, ha, hsa⟩ := Graph.mem_outputs.1 hsx
    exact .duplicateProducer happlicable
      (contested_of_nodes (hmem x (by simp [hx]) a ha) (hmem g (by simp) n hn) (hfront x hx a ha n hn) hsa hs)

theorem exists_of_mapM_error {α β ε : Type} {f : α → Except ε β} {as : List α} {e : ε}
    (h : as.mapM f = .error e) : ∃ a ∈ as, f a = .error e := by
  induction as with
  | nil => cases h
  | cons a rest ih =>
    rw [List.mapM_cons] at h
    cases ha : f a with
    | error reason =>
      rw [ha] at h
      cases h
      exact ⟨a, List.mem_cons_self, ha⟩
    | ok x =>
      rw [ha] at h
      cases hrest : rest.mapM f with
      | error reason =>
        rw [hrest] at h
        cases h
        obtain ⟨c, hc, hfc⟩ := ih hrest
        exact ⟨c, List.mem_cons_of_mem _ hc, hfc⟩
      | ok xs =>
        rw [hrest] at h
        cases h

theorem refusal_of_build {e : GraphError} (h : b.build = .error e) : b.Refusal e := by
  rcases applicable_or_first b.registrations with happlicable | ⟨front, r, back, hsplit, hfront, hr⟩
  · rw [build_of_applicable happlicable] at h
    cases hgraphs : b.targets.mapM (b.graphFor b.nodes) with
    | error reason =>
      rw [hgraphs] at h
      cases h
      obtain ⟨t, -, ht⟩ := exists_of_mapM_error hgraphs
      exact graphFor_refusal happlicable ht
    | ok graphs =>
      rw [hgraphs] at h
      exact ofGraphs_refusal happlicable hgraphs h
  · rw [build_of_not_applicable hsplit hfront hr] at h
    cases h
    exact .notApplicable hsplit hfront hr

/-! ### What is accepted -/

theorem eq_of_mem_outputs (h : b.build = .ok m) {a n : Node} (ha : a ∈ b.nodes) (hn : n ∈ b.nodes)
    {s : Specification} (hsa : s ∈ a.outputs) (hsn : s ∈ n.outputs) : a = n := by
  obtain ⟨x, hx, -, hax⟩ := exists_graph h ha
  obtain ⟨y, hy, -, hny⟩ := exists_graph h hn
  by_cases he : x = y
  · subst he
    exact (accepted_of_build h hx).wellFormed.eq_of_mem_outputs hax hny hsa hsn
  · exact absurd hsn (((build_ok h).2.separate.forall hx hy he a hax n hny).2 s hsa)

theorem buildable_of_build (h : b.build = .ok m) : b.Buildable := by
  refine ⟨?_, ?_, ?_⟩
  · refine (applicable_or_first b.registrations).resolve_right ?_
    rintro ⟨front, r, back, hsplit, hfront, hr⟩
    rw [build_of_not_applicable hsplit hfront hr] at h
    cases h
  · rintro s ⟨i, j, p, r, hne, hp, hr, hsp, hsr⟩
    have heq := eq_of_mem_outputs h (a := b.nodeAt i p) (n := b.nodeAt j r) (mem_nodes.2 ⟨p, hp, rfl⟩)
      (mem_nodes.2 ⟨r, hr, rfl⟩) (mem_distinct.2 hsp) (mem_distinct.2 hsr)
    exact hne (congrArg (·.id.index) heq)
  · intro t
    by_cases ht : ∃ r ∈ b.registrations, r.target = t
    · have hmem : t ∈ m.graphs.map (·.target) := by
        rw [map_target_of_build h]
        exact mem_targets.2 ht
      obtain ⟨g, hg, rfl⟩ := List.mem_map.1 hmem
      obtain ⟨t', ht'⟩ := (build_ok h).1 g hg
      rw [← target_of_graphFor ht'] at ht'
      exact acyclic_iff.1 (Graph.acyclic_of_ofNodes ht')
    · -- nothing is registered for the target, so nothing feeds anything
      intro i hi
      obtain ⟨j, ⟨p, r, hp, -, hpt, -⟩, -⟩ := Relation.TransGen.head'_iff.1 hi
      exact ht ⟨p, List.mem_of_getElem? hp, hpt⟩

/-- A blueprint is built if and only if its calculations apply, its values are declared once and its targets
have no cycles. The first calculation that does not apply is named whenever there is one; else whatever is
named is a value that is really declared twice, or a target whose registrations really run in a circle. -/
theorem build_iff_buildable (b : Blueprint) :
    ((∃ m, b.build = .ok m) ↔ b.Buildable) ∧
      (∀ front r back, b.registrations = front ++ r :: back → (∀ p ∈ front, p.Applicable) → ¬ r.Applicable →
        b.build = .error (.notApplicable r.calculation.name r.target)) ∧
      ∀ e, b.build = .error e → b.Refusal e := by
  refine ⟨⟨fun ⟨m, hm⟩ => buildable_of_build hm, fun hb => ?_⟩,
    fun front r back hsplit hfront hr => build_of_not_applicable hsplit hfront hr, fun e he => refusal_of_build he⟩
  cases h : b.build with
  | ok m => exact ⟨m, rfl⟩
  | error e => exact absurd hb (refusal_of_build h).not_buildable

/-! Two calculations for one target that read each other's value. -/

def turning (input output : String) : Calculation where
  name := output
  requirements t := [{ name := input, target := t }]
  results t := [{ name := output, target := t }]
  call _ _ _ := ⟨.values [], []⟩

def ring : Blueprint where
  registrations := [⟨.position "P", turning "Delta" "Gamma"⟩, ⟨.position "P", turning "Gamma" "Delta"⟩]

theorem ring_refused :
    ring.build = .error (.circularDependency (.position "P")) ∧ ring.Refusal (.circularDependency (.position "P")) ∧
      ¬ ring.Buildable := by
  have hrefused : ring.build = .error (.circularDependency (.position "P")) := rfl
  obtain ⟨hbuilt, -, hrefusal⟩ := build_iff_buildable ring
  refine ⟨hrefused, hrefusal _ hrefused, fun hb => ?_⟩
  obtain ⟨m, hm⟩ := hbuilt.2 hb
  rw [hrefused] at hm
  cases hm

end Blueprint

end CalcCycle
