import Mathlib
import MonthlyModel.Proofs.Dependency.Circularity

/-! Edits of dependency graphs, and what lies downstream of calculations in the graphs they lead to.

Both ends of an edge know it after every sequence of edits. A sweep finds what lies downstream: it takes
calculations from a pile and puts their dependents on it, with repetitions, and around cycles as often as there
are edges. It takes at most one calculation from the pile for each start and each edge, and has then seen
exactly what the starts lead to. -/

namespace MonthlyModel.Dependency.Graph

open Relation

variable {g : Graph} {id p d x : CalculationId} {ids : List CalculationId}

/-! ### Edits -/

/-- What can be done to a graph. -/
inductive Edit where
  | addNode (id : CalculationId)
  | removeNode (id : CalculationId)
  | addEdge (precedent dependent : CalculationId)
  | clearPrecedents (dependent : CalculationId)
  | setPrecedents (dependent : CalculationId) (precedents : List CalculationId)
  | clear

def edit (g : Graph) : Edit → Graph
  | .addNode id => g.addNode id
  | .removeNode id => g.removeNode id
  | .addEdge precedent dependent => g.addEdge precedent dependent
  | .clearPrecedents dependent => g.clearPrecedents dependent
  | .setPrecedents dependent precedents => g.setPrecedents dependent precedents
  | .clear => g.clear

/-- The graph that edits make of the empty one. -/
def ofEdits (edits : List Edit) : Graph :=
  edits.foldl edit empty

theorem Built.edit (h : g.Built) (e : Edit) : (g.edit e).Built := by
  cases e with
  | addNode id => exact h.addNode id
  | removeNode id => exact h.removeNode id
  | addEdge p d => exact h.addEdge p d
  | clearPrecedents d => exact h.clearPrecedents d
  | setPrecedents d ps => exact h.setPrecedents d ps
  | clear => exact .empty

theorem built_ofEdits (edits : List Edit) : (ofEdits edits).Built := by
  suffices h : ∀ g : Graph, g.Built → (edits.foldl Graph.edit g).Built from h empty .empty
  induction edits with
  | nil => exact fun _ h => h
  | cons e edits ih => exact fun g h => ih (g.edit e) (h.edit e)

/-- A removed calculation leaves the edges to its dependents behind, unless it is one itself. -/
theorem mem_removeNode_dependentsOf (hg : g.Mirrored) : d ∈ (g.removeNode id).dependentsOf p ↔
    d ≠ id ∧ d ∈ g.dependentsOf p := by
  rw [hg.removeNode id p d, mem_removeNode_precedentsOf, hg p d]

/-! ### Edges -/

/-- A calculation and one that reads it. -/
def Feeds (g : Graph) (p d : CalculationId) : Prop :=
  d ∈ g.dependentsOf p

theorem swap_reads (hg : g.Mirrored) : Function.swap g.Reads = g.Feeds := by
  funext p d
  exact propext (hg p d).symm

/-- What is downstream of calculations is what edges lead to from them. -/
theorem mem_downstream_iff_feeds (hg : g.Mirrored) :
    x ∈ g.downstream ids ↔ ∃ i ∈ ids, ReflTransGen g.Feeds i x := by
  rw [mem_downstream hg]
  refine exists_congr fun i => and_congr_right fun _ => ?_
  rw [← swap_reads hg, reflTransGen_swap]

/-- The number of edges that start at calculations outside of a set. -/
def edgesOutside (g : Graph) (seen : Std.TreeSet CalculationId) : Nat :=
  (g.dependents.toList.map fun (p, ds) => if p ∈ seen then 0 else ds.size).sum

def edgeCount (g : Graph) : Nat :=
  g.edgesOutside ∅

theorem sum_map_add_le {α : Type*} {l : List α} {f f' : α → Nat} {a : α} {k : Nat} (ha : a ∈ l)
    (hle : ∀ b, f' b ≤ f b) (hk : f' a + k ≤ f a) : (l.map f').sum + k ≤ (l.map f).sum := by
  induction l with
  | nil => cases ha
  | cons b l ih =>
    rw [List.map_cons, List.map_cons, List.sum_cons, List.sum_cons]
    rcases List.mem_cons.mp ha with rfl | ha
    · have hrest : (l.map f').sum ≤ (l.map f).sum := List.sum_le_sum fun b _ => hle b
      omega
    · have hb := hle b
      have hrest := ih ha
      omega

/-- The edges from a calculation that joins a set are outside of it no longer. -/
theorem edgesOutside_insert {seen : Std.TreeSet CalculationId} (hid : id ∉ seen) :
    g.edgesOutside (seen.insert id) + (g.dependentsOf id).size ≤ g.edgesOutside seen := by
  have hle (e : CalculationId × Std.TreeSet CalculationId) :
      (if e.1 ∈ seen.insert id then 0 else e.2.size) ≤ if e.1 ∈ seen then 0 else e.2.size := by
    have hgrow : e.1 ∈ seen → e.1 ∈ seen.insert id := fun h => Std.TreeSet.mem_insert.mpr (.inr h)
    split
    · exact Nat.zero_le _
    · next h => exact (if_neg (mt hgrow h)).ge
  rw [dependentsOf_eq]
  cases hds : g.dependents[id]? with
  | none => exact List.sum_le_sum fun e _ => hle e
  | some ds =>
    have hmem : (id, ds) ∈ g.dependents.toList := Std.TreeMap.mem_toList_iff_getElem?_eq_some.mpr hds
    exact sum_map_add_le hmem hle (by simp [hid])

/-! ### Sweeps -/

/-- What a sweep has seen, and the pile of what it still has to look at. -/
structure Sweep where
  seen : Std.TreeSet CalculationId
  pile : List CalculationId

namespace Sweep

/-- The last of the starts is on top. -/
def start (ids : List CalculationId) : Sweep :=
  ⟨∅, ids.reverse⟩

/-- Takes a calculation from the pile, and puts its dependents there if it is seen for the first time. -/
def step (g : Graph) (s : Sweep) : Sweep :=
  match s.pile with
  | [] => s
  | id :: rest =>
    if id ∈ s.seen then { s with pile := rest }
    else ⟨s.seen.insert id, (g.dependentsOf id).toList.reverse ++ rest⟩

/-- What a sweep has met. -/
def Met (s : Sweep) (x : CalculationId) : Prop :=
  x ∈ s.seen ∨ x ∈ s.pile

/-- What a sweep from starts has met leads from them, and what leads on from there is met or will be. -/
structure Valid (g : Graph) (ids : List CalculationId) (s : Sweep) : Prop where
  starts : ∀ i ∈ ids, s.Met i
  closed : ∀ p ∈ s.seen, ∀ d ∈ g.dependentsOf p, s.Met d
  led : ∀ x, s.Met x → ∃ i ∈ ids, ReflTransGen g.Feeds i x

variable {s : Sweep} {rest : List CalculationId}

theorem step_nil (h : s.pile = []) : s.step g = s := by
  rw [step, h]

theorem step_seen (h : s.pile = id :: rest) (hid : id ∈ s.seen) : s.step g = { s with pile := rest } := by
  rw [step, h]
  exact if_pos hid

theorem step_unseen (h : s.pile = id :: rest) (hid : id ∉ s.seen) :
    s.step g = ⟨s.seen.insert id, (g.dependentsOf id).toList.reverse ++ rest⟩ := by
  rw [step, h]
  exact if_neg hid

theorem met_step_unseen (h : s.pile = id :: rest) (hid : id ∉ s.seen) :
    (s.step g).Met x ↔ s.Met x ∨ x ∈ g.dependentsOf id := by
  rw [step_unseen h hid, Met, Met, h, Std.TreeSet.mem_insert, Std.LawfulEqCmp.compare_eq_iff_eq, List.mem_append,
    List.mem_reverse, Std.TreeSet.mem_toList, List.mem_cons, eq_comm]
  tauto

theorem met_step_seen (h : s.pile = id :: rest) (hid : id ∈ s.seen) : (s.step g).Met x ↔ s.Met x := by
  rw [step_seen h hid, Met, Met, h, List.mem_cons]
  constructor
  · exact fun hx => hx.imp_right .inr
  · rintro (hx | rfl | hx)
    · exact .inl hx
    · exact .inl hid
    · exact .inr hx

theorem Valid.start (g : Graph) (ids : List CalculationId) : (Sweep.start ids).Valid g ids where
  starts _ hi := .inr (List.mem_reverse.mpr hi)
  closed _ hp := absurd hp Std.TreeSet.not_mem_emptyc
  led x hx := ⟨x, List.mem_reverse.mp (hx.resolve_left Std.TreeSet.not_mem_emptyc), .refl⟩

theorem Valid.step (hs : s.Valid g ids) : (s.step g).Valid g ids := by
  cases h : s.pile with
  | nil => rwa [step_nil h]
  | cons id rest =>
    by_cases hid : id ∈ s.seen
    · -- A repetition leaves the pile, and what is met stays the same.
      have hseen : (s.step g).seen = s.seen := by rw [step_seen h hid]
      exact {
        starts := fun i hi => (met_step_seen h hid).mpr (hs.starts i hi)
        closed := fun p hp d hd => (met_step_seen h hid).mpr (hs.closed p (hseen ▸ hp) d hd)
        led := fun x hx => hs.led x ((met_step_seen h hid).mp hx) }
    · have hseen : ∀ p, p ∈ (s.step g).seen ↔ p = id ∨ p ∈ s.seen := fun p => by
        rw [step_unseen h hid, Std.TreeSet.mem_insert, Std.LawfulEqCmp.compare_eq_iff_eq, eq_comm]
      obtain ⟨i, hi, hpath⟩ := hs.led id (.inr (h ▸ List.mem_cons_self))
      refine { starts := fun i hi => ?starts, closed := fun p hp d hd => ?closed, led := fun x hx => ?led }
      case starts => exact (met_step_unseen h hid).mpr (.inl (hs.starts i hi))
      case closed =>
        rcases (hseen p).mp hp with rfl | hp
        · exact (met_step_unseen h hid).mpr (.inr hd)
        · exact (met_step_unseen h hid).mpr (.inl (hs.closed p hp d hd))
      case led =>
        rcases (met_step_unseen h hid).mp hx with hx | hx
        · exact hs.led x hx
        · exact ⟨i, hi, hpath.tail hx⟩

theorem Valid.iterate (hs : s.Valid g ids) (n : Nat) : ((Sweep.step g)^[n] s).Valid g ids := by
  induction n generalizing s with
  | zero => exact hs
  | succ n ih => exact ih hs.step

/-- What a sweep can still take from its pile: what lies there, and what the edges from calculations that it has
    not seen can put there. -/
def work (g : Graph) (s : Sweep) : Nat :=
  s.pile.length + g.edgesOutside s.seen

theorem work_step_lt (h : s.pile ≠ []) : (s.step g).work g < s.work g := by
  cases h : s.pile with
  | nil => contradiction
  | cons id rest =>
    by_cases hid : id ∈ s.seen
    · rw [step_seen h hid, work, work, h, List.length_cons]
      dsimp only
      omega
    · -- What comes on the pile is no more than the edges that are outside of what is seen no longer.
      have hedges := edgesOutside_insert (g := g) hid
      have htaken : (g.dependentsOf id).toList.length = (g.dependentsOf id).size := Std.TreeSet.length_toList
      rw [step_unseen h hid, work, work, h, List.length_append, List.length_reverse, List.length_cons]
      dsimp only
      omega

theorem pile_iterate (g : Graph) {n : Nat} (hn : s.work g ≤ n) : ((Sweep.step g)^[n] s).pile = [] := by
  induction n generalizing s with
  | zero =>
    have hlength : s.pile.length = 0 := Nat.eq_zero_of_add_eq_zero_right (Nat.le_zero.mp hn)
    exact List.eq_nil_of_length_eq_zero hlength
  | succ n ih =>
    by_cases hnil : s.pile = []
    · rwa [Function.iterate_fixed (step_nil hnil)]
    · have hless : (s.step g).work g < s.work g := work_step_lt hnil
      exact ih (by omega)

theorem Valid.mem_seen_iff (hs : s.Valid g ids) (hpile : s.pile = []) :
    x ∈ s.seen ↔ ∃ i ∈ ids, ReflTransGen g.Feeds i x := by
  have hmet (y : CalculationId) (hy : s.Met y) : y ∈ s.seen := hy.resolve_right (by simp [hpile])
  constructor
  · exact fun hx => hs.led x (.inl hx)
  · rintro ⟨i, hi, hpath⟩
    induction hpath with
    | refl => exact hmet i (hs.starts i hi)
    | tail _ hedge ih => exact hmet _ (hs.closed _ ih _ hedge)

end Sweep

/-- The sweep from starts, after as many steps as there are starts and edges. -/
def sweep (g : Graph) (ids : List CalculationId) : Sweep :=
  (Sweep.step g)^[ids.length + g.edgeCount] (Sweep.start ids)

theorem pile_sweep (g : Graph) (ids : List CalculationId) : (g.sweep ids).pile = [] :=
  Sweep.pile_iterate g (by rw [Sweep.work, Sweep.start, List.length_reverse, edgeCount])

theorem mem_seen_sweep : x ∈ (g.sweep ids).seen ↔ ∃ i ∈ ids, ReflTransGen g.Feeds i x :=
  ((Sweep.Valid.start g ids).iterate _).mem_seen_iff (pile_sweep g ids)

/-- After every sequence of edits, both ends of an edge know it, precedents are replaced for one calculation
    only, a removed calculation leaves the edges to its other dependents behind, and a sweep of what lies
    downstream ends with exactly what edges lead to. -/
theorem edges_after_edits (edits : List Edit) :
    let g := ofEdits edits
    (∀ p d, p ∈ g.precedentsOf d ↔ d ∈ g.dependentsOf p) ∧
      (∀ d ps id x, x ∈ (g.setPrecedents d ps).precedentsOf id ↔ if id = d then x ∈ ps else x ∈ g.precedentsOf id) ∧
      (∀ id p d, d ∈ (g.removeNode id).dependentsOf p ↔ d ≠ id ∧ d ∈ g.dependentsOf p) ∧
      ∀ ids, (g.sweep ids).pile = [] ∧ ∀ x, (x ∈ (g.sweep ids).seen ↔ x ∈ g.downstream ids) ∧
        (x ∈ g.downstream ids ↔ ∃ i ∈ ids, ReflTransGen (fun p d => d ∈ g.dependentsOf p) i x) := by
  intro g
  have hg : g.Mirrored := (built_ofEdits edits).mirrored
  refine ⟨fun p d => (hg p d).symm, fun d ps id x => mem_setPrecedents_precedentsOf,
    fun id p d => mem_removeNode_dependentsOf hg, fun ids => ⟨pile_sweep g ids, fun x => ⟨?_, ?_⟩⟩⟩
  · rw [mem_seen_sweep, mem_downstream_iff_feeds hg]
  · exact mem_downstream_iff_feeds hg

/-- An edge from a calculation to itself is one to its own precedent, and goes with it. -/
theorem removeNode_takes_loop :
    ¬ ∀ d, d ∈ (ofEdits [.addNode 1, .addEdge 1 1]).dependentsOf 1 →
      d ∈ ((ofEdits [.addNode 1, .addEdge 1 1]).removeNode 1).dependentsOf 1 := by
  intro h
  have hloop : 1 ∈ (ofEdits [.addNode 1, .addEdge 1 1]).dependentsOf 1 := mem_addEdge_dependentsOf.mpr (.inr ⟨rfl, rfl⟩)
  exact ((mem_removeNode_dependentsOf (built_ofEdits _).mirrored).mp (h 1 hloop)).1 rfl

/-- Around a cycle, the sweep sees everything once and takes the repetitions from its pile as well. -/
example : ((ofEdits [.addEdge 1 2, .addEdge 2 3, .addEdge 3 1, .addEdge 1 3]).sweep [1]).seen.toList = [1, 2, 3] := by
  cbv

end MonthlyModel.Dependency.Graph
