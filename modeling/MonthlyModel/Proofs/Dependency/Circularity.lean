import MonthlyModel.Proofs.Dependency.Graph
import MonthlyModel.Proofs.Dependency.Order

/-! Three tests for cycles.

A calculation is circular if it is downstream of one of its precedents. New precedents would make it
circular if one of them is downstream of it already: a path to a calculation does not need the edges from
it, which are the ones that are replaced. The order of evaluation looks for cycles of nodes only, and finds the
same ones wherever all that read something are nodes. -/

namespace MonthlyModel.Dependency.Graph

open Relation

variable {g : Graph} {id d x y : CalculationId} {ps : List CalculationId}

/-! ### Graphs that operations build -/

/-- A graph that operations have made of the empty one. -/
inductive Built : Graph → Prop where
  | empty : Built .empty
  | addNode {g : Graph} (h : Built g) (id : CalculationId) : Built (g.addNode id)
  | removeNode {g : Graph} (h : Built g) (id : CalculationId) : Built (g.removeNode id)
  | addEdge {g : Graph} (h : Built g) (precedent dependent : CalculationId) : Built (g.addEdge precedent dependent)
  | clearPrecedents {g : Graph} (h : Built g) (dependent : CalculationId) : Built (g.clearPrecedents dependent)
  | setPrecedents {g : Graph} (h : Built g) (dependent : CalculationId) (precedents : List CalculationId) :
    Built (g.setPrecedents dependent precedents)

theorem Built.mirrored (h : g.Built) : g.Mirrored := by
  induction h with
  | empty => exact mirrored_empty
  | addNode _ id ih => exact ih.addNode id
  | removeNode _ id ih => exact ih.removeNode id
  | addEdge _ p d ih => exact ih.addEdge p d
  | clearPrecedents _ d ih => exact ih.clearPrecedents d
  | setPrecedents _ d ps ih => exact ih.setPrecedents d ps

/-! ### Reading oneself -/

/-- Precedents close a cycle if one of them reads the calculation, directly or through others, or is it. -/
theorem wouldClose_iff (hg : g.Mirrored) : g.wouldClose d ps = true ↔ ∃ p ∈ ps, ReflTransGen g.Reads p d := by
  rw [wouldClose, List.any_eq_true]
  refine exists_congr fun p => and_congr_right fun _ => ?_
  rw [Std.TreeSet.contains_iff_mem, mem_downstream hg]
  simp

theorem isCircular_iff (hg : g.Mirrored) : g.isCircular id = true ↔ TransGen g.Reads id id := by
  rw [isCircular, wouldClose_iff hg, TransGen.head'_iff]
  exact exists_congr fun p => and_congr_left fun _ => Std.TreeSet.mem_toList

theorem reads_setPrecedents_self : (g.setPrecedents d ps).Reads d x ↔ x ∈ ps := by
  rw [Reads, mem_setPrecedents_precedentsOf, if_pos rfl]

theorem reads_setPrecedents_of_ne (h : x ≠ d) : (g.setPrecedents d ps).Reads x y ↔ g.Reads x y := by
  rw [Reads, mem_setPrecedents_precedentsOf, if_neg h, Reads]

theorem isCircular_setPrecedents (hg : g.Mirrored) :
    (g.setPrecedents d ps).isCircular d = true ↔ g.wouldClose d ps = true := by
  have hpaths (p : CalculationId) : ReflTransGen (g.setPrecedents d ps).Reads p d ↔ ReflTransGen g.Reads p d :=
    reflTransGen_congr_off fun _ _ hne => reads_setPrecedents_of_ne hne
  rw [isCircular_iff (hg.setPrecedents d ps), wouldClose_iff hg, TransGen.head'_iff]
  exact exists_congr fun p => and_congr reads_setPrecedents_self (hpaths p)

/-! ### Cycles of nodes -/

/-- Only nodes read. The precedents of a node may still be no nodes. -/
def ReadersAreNodes (g : Graph) : Prop :=
  ∀ d p, p ∈ g.precedentsOf d → d ∈ g.nodes

theorem readersAreNodes_empty : ReadersAreNodes empty := by
  intro d p hp
  simp [empty, precedentsOf] at hp

theorem ReadersAreNodes.addNode (hn : g.ReadersAreNodes) (id : CalculationId) : (g.addNode id).ReadersAreNodes :=
  fun d p hp => mem_addNode_nodes.mpr (.inr (hn d p hp))

theorem ReadersAreNodes.setPrecedents (hn : g.ReadersAreNodes) (hd : d ∈ g.nodes) :
    (g.setPrecedents d ps).ReadersAreNodes := by
  intro x p hp
  rw [mem_setPrecedents_precedentsOf] at hp
  rw [setPrecedents_nodes]
  split at hp
  · next h => exact h ▸ hd
  · exact hn x p hp

theorem edges_iff_reads (hn : g.ReadersAreNodes) : TransGen g.Edge id id ↔ TransGen g.Reads id id := by
  refine ⟨TransGen.mono (fun _ _ hedge => hedge.2.2) _ _, fun h => ?_⟩
  obtain ⟨_, hread, -⟩ := TransGen.head'_iff.mp h
  exact transGen_among h hn (fun _ _ hread hnode => ⟨hn _ _ hread, hnode, hread⟩) (hn _ _ hread)

theorem isCircular_iff_isCyclic (hg : g.Mirrored) (hn : g.ReadersAreNodes) :
    g.isCircular id = true ↔ g.evaluationOrder.isCyclic id = true := by
  rw [isCircular_iff hg, isCyclic_iff, edges_iff_reads hn]

theorem isCyclic_iff_exists_cycleOf? : g.evaluationOrder.isCyclic id = true ↔
    ∃ c, g.evaluationOrder.cycleOf? id = some c ∧ g.IsComponent c ∧ id ∈ c := by
  rw [isCyclic_iff]
  constructor
  · intro hcycle
    obtain ⟨c, hc⟩ := Option.ne_none_iff_exists'.mp fun hnone => cycleOf?_eq_none_iff.mp hnone hcycle
    exact ⟨c, hc, (cycleOf?_eq_some_iff.mp hc).2⟩
  · rintro ⟨c, hc, -⟩
    exact (cycleOf?_eq_some_iff.mp hc).1

/-- The tests for cycles agree. Precedents would close a cycle if the calculation is circular once it has
    them. If only nodes read, the circular calculations are the cyclic ones of the order of evaluation, which are
    the ones with a component for a cycle. -/
theorem tests_for_cycles_agree (h : g.Built) :
    (∀ d ps, g.wouldClose d ps = true ↔ (g.setPrecedents d ps).isCircular d = true) ∧
      (g.ReadersAreNodes → ∀ id,
        (g.isCircular id = true ↔ g.evaluationOrder.isCyclic id = true) ∧
        (g.isCircular id = true ↔
          ∃ c, g.evaluationOrder.cycleOf? id = some c ∧ g.IsComponent c ∧ id ∈ c)) := by
  refine ⟨fun d ps => (isCircular_setPrecedents h.mirrored).symm, fun hn id => ?_⟩
  have hcyclic : g.isCircular id = true ↔ g.evaluationOrder.isCyclic id = true :=
    isCircular_iff_isCyclic h.mirrored hn
  exact ⟨hcyclic, hcyclic.trans isCyclic_iff_exists_cycleOf?⟩

/-- Two calculations that read each other, one of which also reads one that does not exist. -/
def pair : Graph :=
  (((empty.addNode 1).addNode 2).setPrecedents 1 [2, 9]).setPrecedents 2 [1]

theorem readersAreNodes_pair : pair.ReadersAreNodes := by
  refine ((readersAreNodes_empty.addNode 1).addNode 2 |>.setPrecedents ?_).setPrecedents ?_
  · simp [mem_addNode_nodes]
  · simp [mem_addNode_nodes]

theorem tests_for_cycles_agree_pair :
    pair.Built ∧ pair.ReadersAreNodes ∧ pair.isCircular 1 = true ∧
      (pair.wouldClose 2 [9] = true ↔ (pair.setPrecedents 2 [9]).isCircular 2 = true) ∧
      (pair.isCircular 1 = true ↔ pair.evaluationOrder.isCyclic 1 = true) ∧
      (pair.isCircular 1 = true ↔
        ∃ c, pair.evaluationOrder.cycleOf? 1 = some c ∧ pair.IsComponent c ∧ 1 ∈ c) := by
  have hbuilt : pair.Built := (((Built.empty.addNode 1).addNode 2).setPrecedents 1 [2, 9]).setPrecedents 2 [1]
  have hcircular : pair.isCircular 1 = true := by cbv
  obtain ⟨hclose, hcyclic⟩ := tests_for_cycles_agree hbuilt
  exact ⟨hbuilt, readersAreNodes_pair, hcircular, hclose 2 [9], hcyclic readersAreNodes_pair 1⟩

/-- Calculations that read each other without being nodes are circular, but no cycle of the order. -/
example : let g := (empty.addEdge 1 2).addEdge 2 1
    (g.isCircular 1, g.evaluationOrder.isCyclic 1) = (true, false) := by
  cbv

end MonthlyModel.Dependency.Graph
