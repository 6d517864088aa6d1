import MonthlyModel.Dependency.Graph
import MonthlyModel.Proofs.Dependency.Walk

/-! The edges of dependency graphs.

Both ends of an edge know it, whatever is done to a graph. The precedents of one identifier can be
replaced without a change to those of any other, and a calculation is downstream of another one
exactly when it reads it, directly or through others. -/

namespace MonthlyModel.Dependency.Graph

open Relation

variable {g : Graph} {id p d x : CalculationId} {ps : List CalculationId}

/-- Precedents and dependents are two sides of the same edges. -/
def Mirrored (g : Graph) : Prop :=
  ∀ p d, d ∈ g.dependentsOf p ↔ p ∈ g.precedentsOf d

/-! ### Operations on edges -/

@[simp] theorem addNode_precedentsOf : (g.addNode id).precedentsOf d = g.precedentsOf d := rfl

@[simp] theorem addNode_dependentsOf : (g.addNode id).dependentsOf p = g.dependentsOf p := rfl

theorem mem_addEdge_precedentsOf : x ∈ (g.addEdge p d).precedentsOf id ↔
    x ∈ g.precedentsOf id ∨ id = d ∧ x = p := by
  simp only [addEdge, precedentsOf, Std.TreeMap.getD_insert, Std.LawfulEqCmp.compare_eq_iff_eq]
  split
  · next h =>
    subst h
    rw [Std.TreeSet.mem_insert, Std.LawfulEqCmp.compare_eq_iff_eq, or_comm, eq_comm]
    simp
  · next h => simp [Ne.symm h]

theorem mem_addEdge_dependentsOf : x ∈ (g.addEdge p d).dependentsOf id ↔
    x ∈ g.dependentsOf id ∨ id = p ∧ x = d := by
  simp only [addEdge, dependentsOf, Std.TreeMap.getD_insert, Std.LawfulEqCmp.compare_eq_iff_eq]
  split
  · next h =>
    subst h
    rw [Std.TreeSet.mem_insert, Std.LawfulEqCmp.compare_eq_iff_eq, or_comm, eq_comm]
    simp
  · next h => simp [Ne.symm h]

theorem mem_clearPrecedents_precedentsOf : x ∈ (g.clearPrecedents d).precedentsOf id ↔
    id ≠ d ∧ x ∈ g.precedentsOf id := by
  simp only [clearPrecedents, precedentsOf, Std.TreeMap.getD_erase, Std.LawfulEqCmp.compare_eq_iff_eq]
  split
  · next h => simp [h]
  · next h => simp [Ne.symm h]

theorem mem_getD_forgetDependent {m : Std.TreeMap CalculationId (Std.TreeSet CalculationId)} :
    x ∈ (forgetDependent d m p).getD id ∅ ↔ x ∈ m.getD id ∅ ∧ ¬ (id = p ∧ x = d) := by
  simp only [forgetDependent]
  split
  · next hempty =>
    simp only [Std.TreeMap.getD_erase, Std.LawfulEqCmp.compare_eq_iff_eq]
    split
    · next h =>
      subst h
      have hnone : x ∉ (m.getD p ∅).erase d := Std.TreeSet.not_mem_of_isEmpty hempty
      rw [mem_erase_iff] at hnone
      exact iff_of_false Std.TreeSet.not_mem_emptyc fun ⟨hx, hd⟩ => hnone ⟨fun he => hd ⟨rfl, he⟩, hx⟩
    · next h => simp [Ne.symm h]
  · simp only [Std.TreeMap.getD_insert, Std.LawfulEqCmp.compare_eq_iff_eq]
    split
    · next h =>
      subst h
      rw [mem_erase_iff, and_comm]
      simp
    · next h => simp [Ne.symm h]

theorem mem_getD_foldl_forgetDependent {m : Std.TreeMap CalculationId (Std.TreeSet CalculationId)} :
    x ∈ (ps.foldl (forgetDependent d) m).getD id ∅ ↔ x ∈ m.getD id ∅ ∧ ¬ (id ∈ ps ∧ x = d) := by
  induction ps generalizing m with
  | nil => simp
  | cons p ps ih =>
    rw [List.foldl_cons, ih, mem_getD_forgetDependent, List.mem_cons, and_assoc, or_and_right, not_or]

theorem mem_clearPrecedents_dependentsOf : x ∈ (g.clearPrecedents d).dependentsOf id ↔
    x ∈ g.dependentsOf id ∧ ¬ (id ∈ g.precedentsOf d ∧ x = d) := by
  rw [clearPrecedents, dependentsOf, mem_getD_foldl_forgetDependent, Std.TreeSet.mem_toList]
  rfl

theorem mem_foldl_addEdge_precedentsOf : x ∈ (ps.foldl (fun g p => g.addEdge p d) g).precedentsOf id ↔
    x ∈ g.precedentsOf id ∨ id = d ∧ x ∈ ps := by
  induction ps generalizing g with
  | nil => simp
  | cons p ps ih =>
    rw [List.foldl_cons, ih, mem_addEdge_precedentsOf, List.mem_cons, or_assoc, and_or_left]

theorem mem_setPrecedents_precedentsOf : x ∈ (g.setPrecedents d ps).precedentsOf id ↔
    if id = d then x ∈ ps else x ∈ g.precedentsOf id := by
  rw [setPrecedents, mem_foldl_addEdge_precedentsOf, mem_clearPrecedents_precedentsOf]
  split
  · next h => simp [h]
  · next h => simp [h]

theorem mem_removeNode_precedentsOf : x ∈ (g.removeNode d).precedentsOf id ↔
    id ≠ d ∧ x ∈ g.precedentsOf id :=
  mem_clearPrecedents_precedentsOf

/-! ### Both ends of edges -/

theorem mirrored_empty : Mirrored empty := by
  intro p d
  simp [empty, dependentsOf, precedentsOf]

theorem Mirrored.addNode (h : g.Mirrored) (id : CalculationId) : (g.addNode id).Mirrored :=
  h

theorem Mirrored.clearPrecedents (h : g.Mirrored) (id : CalculationId) : (g.clearPrecedents id).Mirrored := by
  intro p d
  rw [mem_clearPrecedents_dependentsOf, mem_clearPrecedents_precedentsOf, h p d]
  constructor
  · rintro ⟨hd, hn⟩
    exact ⟨fun he => hn ⟨he ▸ hd, he⟩, hd⟩
  · rintro ⟨hne, hd⟩
    exact ⟨hd, fun he => hne he.2⟩

theorem Mirrored.addEdge (h : g.Mirrored) (p d : CalculationId) : (g.addEdge p d).Mirrored := by
  intro q x
  rw [mem_addEdge_dependentsOf, mem_addEdge_precedentsOf, h q x, and_comm]

theorem Mirrored.setPrecedents (h : g.Mirrored) (id : CalculationId) (ps : List CalculationId) :
    (g.setPrecedents id ps).Mirrored := by
  have := h.clearPrecedents id
  unfold Graph.setPrecedents
  generalize g.clearPrecedents id = g' at this
  induction ps generalizing g' with
  | nil => exact this
  | cons p ps ih => exact ih _ (this.addEdge p id)

theorem Mirrored.removeNode (h : g.Mirrored) (id : CalculationId) : (g.removeNode id).Mirrored :=
  Mirrored.clearPrecedents (g := { g with nodes := g.nodes.erase id }) h id

/-! ### Nodes -/

theorem mem_addNode_nodes : x ∈ (g.addNode id).nodes ↔ x = id ∨ x ∈ g.nodes := by
  rw [Graph.addNode, Std.TreeSet.mem_insert, Std.LawfulEqCmp.compare_eq_iff_eq, eq_comm]

@[simp] theorem setPrecedents_nodes : (g.setPrecedents d ps).nodes = g.nodes := by
  have : (g.clearPrecedents d).nodes = g.nodes := rfl
  unfold Graph.setPrecedents
  generalize g.clearPrecedents d = g' at this
  induction ps generalizing g' with
  | nil => exact this
  | cons p ps ih => exact ih _ this

theorem mem_removeNode_nodes : x ∈ (g.removeNode id).nodes ↔ x ≠ id ∧ x ∈ g.nodes :=
  mem_erase_iff

/-! ### What lies downstream -/

/-- A dependent and one of its precedents. -/
def Reads (g : Graph) (d p : CalculationId) : Prop :=
  p ∈ g.precedentsOf d

theorem dependentsOf_eq (g : Graph) (p : CalculationId) : g.dependentsOf p = g.dependents[p]?.getD ∅ :=
  Std.TreeMap.getD_eq_getD_getElem?

theorem mem_mentioned_of_mem_dependentsOf (h : d ∈ g.dependentsOf p) : d ∈ g.mentioned := by
  rw [dependentsOf_eq] at h
  cases hp : g.dependents[p]? with
  | none => simp [hp] at h
  | some ds =>
    rw [hp, Option.getD_some] at h
    refine List.mem_flatMap.mpr ⟨(p, ds), Std.TreeMap.mem_toList_iff_getElem?_eq_some.mpr hp, ?_⟩
    exact List.mem_cons_of_mem _ (Std.TreeSet.mem_toList.mpr h)

/-- What is downstream of calculations are they and all that read them, directly or through others. -/
theorem mem_downstream (hg : g.Mirrored) {ids : List CalculationId} :
    x ∈ g.downstream ids ↔ ∃ s ∈ ids, ReflTransGen g.Reads x s := by
  have hstep : Step (fun id => (g.dependentsOf id).toList) (.ofList (ids ++ g.mentioned)) =
      Function.swap g.Reads := by
    funext a b
    rw [Step, Std.TreeSet.mem_toList, Std.TreeSet.mem_ofList, List.contains_iff_mem, hg a b]
    exact propext ⟨And.left, fun h =>
      ⟨h, List.mem_append_right _ (mem_mentioned_of_mem_dependentsOf ((hg a b).mpr h))⟩⟩
  rw [downstream, mem_reachable]
  constructor
  · rintro ⟨s, hs, -, hp⟩
    rw [Reaches, hstep, reflTransGen_swap] at hp
    exact ⟨s, hs, hp⟩
  · rintro ⟨s, hs, hp⟩
    refine ⟨s, hs, ?_, ?_⟩
    · rw [Std.TreeSet.mem_ofList, List.contains_iff_mem]
      exact List.mem_append_left _ hs
    · rwa [Reaches, hstep, reflTransGen_swap]

end MonthlyModel.Dependency.Graph
