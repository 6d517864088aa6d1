import MonthlyModel.Dependency.Order
import MonthlyModel.Proofs.Dependency.Search

/-! The order of evaluation and its cycles.

The order lists every node once; a node that needs one that comes after it is in one component with it.
Cycles are the components of the nodes that need themselves. -/

namespace MonthlyModel.Dependency.Graph

open Relation

variable {g : Graph} {id x : CalculationId} {c : List CalculationId}

/-! ### The order -/

theorem mem_order : x ∈ g.evaluationOrder.order ↔ x ∈ g.nodes := by
  rw [EvaluationOrder.order, List.mem_flatMap]
  exact exists_component

theorem nodup_order (g : Graph) : g.evaluationOrder.order.Nodup := by
  refine List.nodup_flatMap.mpr ⟨fun k hk => (isComponent_of_mem hk).nodup, ?_⟩
  refine (pairwise_components g).imp fun h x hx hx' => ?_
  exact h x hx x hx' .refl

theorem notMem_of_order {done todo : List CalculationId} (h : g.evaluationOrder.order = done ++ id :: todo) :
    id ∉ done ∧ id ∉ todo := by
  have hnodup := nodup_order g
  rw [h, List.nodup_middle, List.nodup_cons, List.mem_append, not_or] at hnodup
  exact hnodup.1

/-- A node that needs one that comes after it is needed by it. -/
theorem pairwise_order (g : Graph) : g.evaluationOrder.order.Pairwise fun a b => g.Needs a b → g.Needs b a := by
  refine List.pairwise_flatMap.mpr ⟨fun k hk => ?_, ?_⟩
  · have hk := isComponent_of_mem hk
    exact List.pairwise_of_forall_mem_list fun a ha b hb _ => ((hk.mem_iff ha).mp hb).2
  · exact (pairwise_components g).imp fun h a ha b hb hab => absurd hab (h a ha b hb)

/-- An order that lists all nodes once, each after its precedents, with the members of a component next
    to each other in ascending order. Precedents that are no nodes do not count, and neither do those in
    the component of their dependent. -/
structure IsSorted (g : Graph) (ids : List CalculationId) : Prop where
  nodup : ids.Nodup
  mem : ∀ x, x ∈ ids ↔ x ∈ g.nodes
  after : ∀ d p, d ∈ g.nodes → p ∈ g.nodes → p ∈ g.precedentsOf d → ¬ (g.Needs d p ∧ g.Needs p d) →
    ids.idxOf p < ids.idxOf d
  adjacent : ∀ x ∈ g.nodes, ∃ c front back, ids = front ++ c ++ back ∧ x ∈ c ∧ g.IsComponent c

theorem idxOf_lt_of_pairwise {ids : List CalculationId} {R : CalculationId → CalculationId → Prop}
    {d p : CalculationId} (h : ids.Pairwise R) (hd : d ∈ ids) (hne : d ≠ p) (hn : ¬ R d p) (hp : p ∈ ids) :
    ids.idxOf p < ids.idxOf d := by
  induction ids with
  | nil => exact absurd hd List.not_mem_nil
  | cons x ids ih =>
    obtain ⟨hhead, htail⟩ := List.pairwise_cons.mp h
    rcases List.mem_cons.mp hd with rfl | hd
    · exact absurd (hhead p ((List.mem_cons.mp hp).resolve_left (Ne.symm hne))) hn
    · by_cases hdx : x = d
      · subst hdx
        exact absurd (hhead p ((List.mem_cons.mp hp).resolve_left (Ne.symm hne))) hn
      · by_cases hpx : x = p
        · subst hpx
          rw [List.idxOf_cons_self, List.idxOf_cons_ne _ hdx]
          exact Nat.succ_pos _
        · rw [List.idxOf_cons_ne _ hpx, List.idxOf_cons_ne _ hdx]
          exact Nat.succ_lt_succ (ih htail hd ((List.mem_cons.mp hp).resolve_left (Ne.symm hpx)))

/-- A precedent that does not need its dependent comes before it. -/
theorem idxOf_order_lt {d p : CalculationId} (h : g.Edge d p) (hn : ¬ g.Needs p d) :
    g.evaluationOrder.order.idxOf p < g.evaluationOrder.order.idxOf d := by
  refine idxOf_lt_of_pairwise (pairwise_order g) (mem_order.mpr h.1) ?_ (fun hback => hn (hback (.single h)))
    (mem_order.mpr h.2.1)
  rintro rfl
  exact hn .refl

theorem isSorted_order (g : Graph) : g.IsSorted g.evaluationOrder.order := by
  refine ⟨nodup_order g, fun x => mem_order, fun d p hd hp hread hn => ?_, fun x hx => ?_⟩
  · have hedge : g.Edge d p := ⟨hd, hp, hread⟩
    exact idxOf_order_lt hedge fun hback => hn ⟨.single hedge, hback⟩
  · obtain ⟨k, hk, hxk⟩ := exists_component.mpr hx
    obtain ⟨front, back, hsplit⟩ := List.append_of_mem hk
    refine ⟨k.members, front.flatMap (·.members), back.flatMap (·.members), ?_, hxk, isComponent_of_mem hk⟩
    rw [EvaluationOrder.order, evaluationOrder, hsplit]
    simp

/-- What reads nothing comes first, although it was met last. -/
example : (((((empty.addNode 1).addNode 2).addNode 3).setPrecedents 1 [2, 9]).setPrecedents 2 [1, 3]).evaluationOrder =
    ⟨[⟨[3], false⟩, ⟨[1, 2], true⟩]⟩ := by
  cbv

/-! ### Cycles -/

theorem mem_cycles : c ∈ g.evaluationOrder.cycles ↔ g.IsComponent c ∧ ∃ v ∈ c, TransGen g.Edge v v := by
  rw [EvaluationOrder.cycles, List.mem_map]
  constructor
  · rintro ⟨k, hk, rfl⟩
    obtain ⟨hk, hcycle⟩ := List.mem_filter.mp hk
    exact ⟨isComponent_of_mem hk, (isCycle_iff hk).mp hcycle⟩
  · rintro ⟨hc, v, hv, hcycle⟩
    obtain ⟨k, hk, hvk⟩ := exists_component.mpr (hc.mem_nodes hv)
    obtain rfl := hc.eq_of_mem (isComponent_of_mem hk) hv hvk
    exact ⟨k, List.mem_filter.mpr ⟨hk, (isCycle_iff hk).mpr ⟨v, hv, hcycle⟩⟩, rfl⟩

theorem nodup_cycles (g : Graph) : g.evaluationOrder.cycles.Nodup := by
  refine List.pairwise_map.mpr (List.Pairwise.imp_of_mem ?_ ((pairwise_components g).filter _))
  intro k k' hk _ h heq
  obtain ⟨hk, hcycle⟩ := List.mem_filter.mp hk
  obtain ⟨v, hv, -⟩ := (isCycle_iff hk).mp hcycle
  exact h v hv v (heq ▸ hv) .refl

theorem isCyclic_iff : g.evaluationOrder.isCyclic id = true ↔ TransGen g.Edge id id := by
  simp only [EvaluationOrder.isCyclic, List.any_eq_true, List.contains_iff_mem, mem_cycles]
  constructor
  · rintro ⟨c, ⟨hc, v, hv, hcycle⟩, hid⟩
    obtain ⟨hdown, hup⟩ := (hc.mem_iff hid).mp hv
    exact (TransGen.trans_right hdown hcycle).trans_left hup
  · intro h
    obtain ⟨w, hedge, -⟩ := TransGen.head'_iff.mp h
    obtain ⟨k, hk, hid⟩ := exists_component.mpr hedge.1
    exact ⟨k.members, ⟨isComponent_of_mem hk, id, hid, h⟩, hid⟩

/-- The cycle of a node is its component, if the node needs itself through at least one edge. -/
theorem cycleOf?_eq_some_iff :
    g.evaluationOrder.cycleOf? id = some c ↔ TransGen g.Edge id id ∧ g.IsComponent c ∧ id ∈ c := by
  have hfound : ∀ {c}, g.evaluationOrder.cycleOf? id = some c →
      TransGen g.Edge id id ∧ g.IsComponent c ∧ id ∈ c := by
    intro c h
    have hmem := List.mem_of_find?_eq_some h
    have hid : id ∈ c := List.contains_iff_mem.mp (List.find?_some (p := fun c : List CalculationId => c.contains id) h)
    have hcyclic : g.evaluationOrder.isCyclic id = true :=
      List.any_eq_true.mpr ⟨c, hmem, List.contains_iff_mem.mpr hid⟩
    exact ⟨isCyclic_iff.mp hcyclic, (mem_cycles.mp hmem).1, hid⟩
  refine ⟨hfound, ?_⟩
  rintro ⟨hcycle, hc, hid⟩
  obtain ⟨c', hc', hid'⟩ := List.any_eq_true.mp (isCyclic_iff.mpr hcycle)
  cases hf : g.evaluationOrder.cycleOf? id with
  | none => exact absurd hid' (List.find?_eq_none.mp hf c' hc')
  | some c' =>
    obtain ⟨-, hc', hid'⟩ := hfound hf
    rw [hc.eq_of_mem hc' hid hid']

theorem cycleOf?_eq_none_iff : g.evaluationOrder.cycleOf? id = none ↔ ¬ TransGen g.Edge id id := by
  rw [← isCyclic_iff, EvaluationOrder.cycleOf?, List.find?_eq_none, EvaluationOrder.isCyclic, List.any_eq_true]
  simp

/-- The cycles are the components that contain a cycle, each listed once. A calculation is cyclic if it
    needs itself through at least one edge; its cycle is then its whole component. -/
theorem cycles_eq_cyclic_components (g : Graph) :
    (∀ c, c ∈ g.evaluationOrder.cycles ↔ g.IsComponent c ∧ ∃ v ∈ c, TransGen g.Edge v v) ∧
      g.evaluationOrder.cycles.Nodup ∧
      (∀ c, g.IsComponent c →
        ((∃ v ∈ c, TransGen g.Edge v v) ↔ 1 < c.length ∨ ∃ v ∈ c, v ∈ g.precedentsOf v)) ∧
      ∀ id, (g.evaluationOrder.isCyclic id = true ↔ TransGen g.Edge id id) ∧
        (g.evaluationOrder.isCyclic id = true →
          ∃ c, g.evaluationOrder.cycleOf? id = some c ∧ g.IsComponent c ∧ id ∈ c) ∧
        (g.evaluationOrder.isCyclic id = false → g.evaluationOrder.cycleOf? id = none) := by
  refine ⟨fun c => mem_cycles, nodup_cycles g, fun c hc => ⟨?_, ?_⟩, fun id => ⟨isCyclic_iff, fun h => ?_, fun h => ?_⟩⟩
  · rintro ⟨v, hv, hcycle⟩
    exact ((hc.cyclic_iff hv).mp ⟨v, hv, hcycle⟩).imp_right fun hloop => ⟨v, hv, hloop⟩
  · rintro (hlong | ⟨v, hv, hloop⟩)
    · obtain ⟨v, hv⟩ := List.exists_mem_of_length_pos (Nat.lt_of_succ_lt hlong)
      exact (hc.cyclic_iff hv).mpr (.inl hlong)
    · exact (hc.cyclic_iff hv).mpr (.inr hloop)
  -- What is on a cycle has an edge, so it is a node and has a component.
  · have hcycle := isCyclic_iff.mp h
    obtain ⟨w, hedge, -⟩ := TransGen.head'_iff.mp hcycle
    obtain ⟨k, hk, hid⟩ := exists_component.mpr hedge.1
    exact ⟨k.members, cycleOf?_eq_some_iff.mpr ⟨hcycle, isComponent_of_mem hk, hid⟩, isComponent_of_mem hk, hid⟩
  · refine cycleOf?_eq_none_iff.mpr fun hcycle => ?_
    rw [isCyclic_iff.mpr hcycle] at h
    cases h

end MonthlyModel.Dependency.Graph
