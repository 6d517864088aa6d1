import MonthlyModel.Proofs.Dependency.Graph
import MonthlyModel.Proofs.Dependency.Order
import MonthlyModel.Proofs.Formula.Names
import MonthlyModel.Proofs.Model.Lookup
import MonthlyModel.Proofs.Model.Operation

/-! The graph of a model and its pending calculations.

The graph of a model says of every calculation what its formula names, and what waits for a recompute
is a set of calculations that holds with each one all that read it. This is kept by every operation. -/

namespace MonthlyModel

/-- What an entry is evaluated by: its formula and the references in it. -/
def Entry.source (e : Entry) : String × List Reference :=
  (e.calculation.formula, e.references)

namespace Model

open Formula (namedReferences namedCalculations)
open Relation

/-- The formula of a calculation names an identifier. -/
def Names (m : Model) (d p : CalculationId) : Prop :=
  ∃ e, m.entry? d = some e ∧ p ∈ namedCalculations e.calculation.formula.toList

/-- A calculation whose formula names another calculation that exists. -/
def Reads (m : Model) (d p : CalculationId) : Prop :=
  m.Names d p ∧ m.contains p = true

/-- The graph of a model has its calculations for nodes and what their formulas name for edges. -/
structure Charted (m : Model) : Prop where
  references : ∀ {id e}, m.entry? id = some e → e.references = namedReferences e.calculation.formula.toList
  mirrored : m.graph.Mirrored
  nodes : ∀ {id}, id ∈ m.graph.nodes ↔ m.contains id = true
  precedents : ∀ {d p}, p ∈ m.graph.precedentsOf d ↔ m.Names d p

/-- The graph of a model is right, and its pending set holds with each calculation all that read it. -/
structure Coherent (m : Model) : Prop extends m.Charted where
  exist : ∀ {id}, id ∈ m.pending → m.contains id = true
  closed : ∀ {d p}, m.Names d p → p ∈ m.pending → d ∈ m.pending

variable {m m' : Model} {id d p x : CalculationId}

theorem Names.contains (h : m.Names d p) : m.contains d = true := by
  obtain ⟨e, he, -⟩ := h
  exact contains_iff.mpr ⟨e, he⟩

theorem names_iff_exists_calculation : m.Names d p ↔ ∃ c ∈ m.calculations, c.id = d ∧ p ∈ namedCalculations c.formula.toList := by
  constructor
  · rintro ⟨e, he, hp⟩
    exact ⟨e.calculation, List.mem_map_of_mem (mem_of_found he), id_of_found he, hp⟩
  · rintro ⟨c, hc, rfl, hp⟩
    obtain ⟨e, he, rfl⟩ := List.mem_map.mp hc
    exact ⟨e, entry?_of_mem he, hp⟩

theorem names_congr (h : (m'.entry? d).map (·.calculation.formula) = (m.entry? d).map (·.calculation.formula)) :
    m'.Names d p ↔ m.Names d p := by
  have hn : ∀ m : Model, m.Names d p ↔
      ∃ f ∈ (m.entry? d).map (·.calculation.formula), p ∈ namedCalculations f.toList := by
    intro m
    simp [Names]
  rw [hn, hn, h]

namespace Charted

theorem reads_eq_edge (hm : m.Charted) : m.Reads = m.graph.Edge := by
  funext d p
  refine propext ⟨fun h => ⟨?_, ?_, ?_⟩, fun h => ⟨?_, ?_⟩⟩
  · exact hm.nodes.mpr h.1.contains
  · exact hm.nodes.mpr h.2
  · exact hm.precedents.mpr h.1
  · exact hm.precedents.mp h.2.2
  · exact hm.nodes.mp h.2.1

/-- A calculation is on no cycle if it does not read itself, through any number of others. -/
theorem cycleOf?_eq_none_iff (hm : m.Charted) :
    m.graph.evaluationOrder.cycleOf? x = none ↔ ¬ TransGen m.Reads x x := by
  rw [hm.reads_eq_edge]
  exact Dependency.Graph.cycleOf?_eq_none_iff

theorem names_of_mem_references (hm : m.Charted) {e : Entry} {r : Reference} (he : m.entry? x = some e)
    (hr : r ∈ e.references) (hp : r.calculation? = some p) : m.Names x p :=
  ⟨e, he, Formula.mem_namedCalculations.mpr ⟨r, hm.references he ▸ hr, hp⟩⟩

theorem names_eq_reads (hm : m.Charted) : m.graph.Reads = m.Names := by
  funext d p
  exact propext hm.precedents

theorem mem_downstream (hm : m.Charted) {ids : List CalculationId} :
    x ∈ m.graph.downstream ids ↔ ∃ s ∈ ids, ReflTransGen m.Names x s := by
  rw [Dependency.Graph.mem_downstream hm.mirrored, hm.names_eq_reads]

end Charted

/-- The pending set may grow by all that lies downstream of some identifiers. -/
theorem Coherent.markPending (hm : m.Coherent) (changed : List CalculationId) :
    (m.markPending changed).Coherent where
  references := hm.references
  mirrored := hm.mirrored
  nodes := hm.nodes
  precedents := hm.precedents
  exist h := (mem_markPending.mp h).elim hm.exist And.right
  closed {d p} hn hp := by
    have hn : m.Names d p := hn
    rcases mem_markPending.mp hp with hp | ⟨hp, -⟩
    · exact mem_markPending.mpr (.inl (hm.closed hn hp))
    · obtain ⟨s, hs, hr⟩ := hm.mem_downstream.mp hp
      exact mem_markPending.mpr (.inr ⟨hm.mem_downstream.mpr ⟨s, hs, hr.head hn⟩, hn.contains⟩)

theorem Coherent.withPending (hm : m.Coherent) {ids : Std.TreeSet CalculationId}
    (he : ∀ x ∈ ids, m.contains x = true) (hc : ∀ d p, m.Names d p → p ∈ ids → d ∈ ids) :
    Coherent { m with pending := ids } where
  references := hm.references
  mirrored := hm.mirrored
  nodes := hm.nodes
  precedents := hm.precedents
  exist hx := he _ hx
  closed hn hp := hc _ _ hn hp

theorem names_iff {e : Entry} (h : m.entry? d = some e) :
    m.Names d p ↔ p ∈ namedCalculations e.calculation.formula.toList := by
  simp [Names, h]

theorem Coherent.new (t : Timeline) (o : ModelOptions) : (Model.new t o).Coherent where
  references h := by simp [Model.new, entry?_def, entries, Roster.empty] at h
  mirrored := Dependency.Graph.mirrored_empty
  nodes := by simp [Model.new, Dependency.Graph.empty, contains, Roster.contains, Roster.empty]
  precedents := by
    simp [Model.new, Dependency.Graph.empty, Dependency.Graph.precedentsOf, Names, entry?_def, entries, Roster.empty]
  exist h := by simp [Model.new] at h
  closed _ h := by simp [Model.new] at h

/-- Two models with the same calculations and the same formulas, whatever the results. -/
structure SameFormulas (m m' : Model) : Prop where
  timeline : m'.timeline = m.timeline
  ids : m'.ids = m.ids
  source : ∀ x, (m'.entry? x).map Entry.source = (m.entry? x).map Entry.source

namespace SameFormulas

theorem refl (m : Model) : SameFormulas m m :=
  ⟨rfl, rfl, fun _ => rfl⟩

theorem trans {m'' : Model} (h : SameFormulas m m') (h' : SameFormulas m' m'') : SameFormulas m m'' :=
  ⟨h'.timeline.trans h.timeline, h'.ids.trans h.ids, fun x => (h'.source x).trans (h.source x)⟩

theorem of_entries (ht : m'.timeline = m.timeline) (he : m'.entries = m.entries) : SameFormulas m m' := by
  refine ⟨ht, congrArg (List.map Entry.id) he, fun x => ?_⟩
  rw [entry?_congr he]

theorem markPending (m : Model) (changed : List CalculationId) : SameFormulas m (m.markPending changed) :=
  .of_entries rfl rfl

theorem withSeries (m : Model) (s : SeriesMap Float) : SameFormulas m { m with series := s } :=
  .of_entries rfl rfl

theorem symm (h : SameFormulas m m') : SameFormulas m' m :=
  ⟨h.timeline.symm, h.ids.symm, fun x => (h.source x).symm⟩

theorem exists_entry (h : SameFormulas m m') {e' : Entry} (he : m'.entry? x = some e') :
    ∃ e, m.entry? x = some e ∧ e.source = e'.source := by
  have := h.source x
  rw [he] at this
  obtain ⟨e, he, hs⟩ := Option.map_eq_some_iff.mp this.symm
  exact ⟨e, he, hs⟩

theorem contains (h : SameFormulas m m') : m'.contains x = m.contains x := by
  have := congrArg Option.isSome (h.source x)
  simpa [contains_def] using this

theorem names (h : SameFormulas m m') : m'.Names d p ↔ m.Names d p := by
  refine names_congr ?_
  have := congrArg (Option.map Prod.fst) (h.source d)
  simpa only [Option.map_map, Function.comp_def, Entry.source] using this

theorem reads (h : SameFormulas m m') : m'.Reads = m.Reads := by
  funext d p
  rw [Reads, h.names, h.contains, Reads]

/-- Coherence depends on the formulas, the graph and the pending set. -/
theorem coherent (h : SameFormulas m m') (hm : m.Coherent) (hg : m'.graph = m.graph)
    (hp : m'.pending = m.pending) : m'.Coherent where
  references {x e'} he := by
    obtain ⟨e, he, hs⟩ := h.exists_entry he
    obtain ⟨hf, hr⟩ := Prod.mk.inj hs
    rw [← hr, ← hf, hm.references he]
  mirrored := hg ▸ hm.mirrored
  nodes := by
    intro x
    rw [hg, h.contains, hm.nodes]
  precedents := by
    intro d p
    rw [hg, h.names, hm.precedents]
  exist hx := by
    rw [h.contains]
    exact hm.exist (hp ▸ hx)
  closed hn hx := hp ▸ hm.closed (h.names.mp hn) (hp ▸ hx)

end SameFormulas

end Model

end MonthlyModel
