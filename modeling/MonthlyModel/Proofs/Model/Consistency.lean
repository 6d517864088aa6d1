import MonthlyModel.Proofs.Formula.Pointwise
import MonthlyModel.Proofs.Model.Freshness
import MonthlyModel.Proofs.SeriesMap

/-! What holds of a model at any time.

The index, the graph, the references and the pending set of a model all follow from its calculations,
and all its series are as long as its timeline. An operation touches several of these at once; whatever
it is, they fit together again when it is done. -/

namespace MonthlyModel

open Formula (Evaluation evaluateText namedReferences namedCalculations)

/-- What is stored has the length of what was there and of the new result, if these have the same. -/
theorem Entry.Stores.length {clock clock' : Nat} {memo : Option Memo} {result : Evaluation Float} {e e' : Entry}
    (h : e.Stores clock memo result clock' e') {n : Nat} (he : e.result.values.length = n)
    (hr : result.values.length = n) : e'.result.values.length = n := by
  cases h with
  | kept => exact he
  | changed => exact hr

namespace Model

variable {m m' : Model} {id x : CalculationId}

/-! ### Lengths -/

/-- Every series of a model, bound or stored, has a value for each month of the timeline. -/
structure Fitting (m : Model) : Prop where
  periods : m.series.periods = m.periods
  results : ∀ {x e}, m.entry? x = some e → e.result.values.length = m.periods

namespace Fitting

theorem of_start (he : m.entries = []) (hp : m.series.periods = m.periods) : m.Fitting :=
  ⟨hp, fun h => by simp [entry?_def, he] at h⟩

theorem new (t : Timeline) (o : ModelOptions) : (Model.new t o).Fitting := by
  have hp : (SeriesMap.ofTimeline t : SeriesMap Float).periods = t.length := SeriesMap.periods_ofTimeline
  exact of_start rfl hp

theorem ofSeries {t : Timeline} {s : SeriesMap Float} {o : ModelOptions} (h : ofSeries t s o = .ok m) :
    m.Fitting := by
  unfold Model.ofSeries at h
  split at h
  · next series hs =>
    obtain rfl := Except.ok.inj h
    unfold SeriesMap.withConstants at hs
    split at hs
    · next hl =>
      have hp : series.periods = t.length := by
        rw [← Except.ok.inj hs, SeriesMap.periods_bindConstants, hl]
      exact of_start rfl hp
    · cases hs
  · cases h

theorem editedAt (hm : m.Fitting) (h : EditedAt id m m') : m'.Fitting := by
  have hp : m'.periods = m.periods := congrArg Timeline.length h.timeline
  refine ⟨by rw [h.series, hp, hm.periods], fun {x e'} he' => ?_⟩
  rw [hp]
  rcases h.entry_cases he' with hsame | ⟨e, he, hsame⟩
  · rw [hsame.result]
    exact List.length_replicate
  · rw [hsame.result, hm.results he]

theorem reboundAt (hm : m.Fitting) {r : Reference} (h : ReboundAt r m m') : m'.Fitting := by
  have hp : m'.periods = m.periods := congrArg Timeline.length h.timeline
  refine ⟨by rw [h.periods, hp, hm.periods], fun {x e'} he' => ?_⟩
  rw [hp]
  exact hm.results (entry?_congr h.entries ▸ he')

theorem sameResults (hm : m.Fitting) (h : SameResults m m') : m'.Fitting := by
  have hp : m'.periods = m.periods := congrArg Timeline.length h.timeline
  refine ⟨by rw [h.series, hp, hm.periods], fun {x e'} he' => ?_⟩
  obtain ⟨e, he, hsame⟩ := h.results he'
  rw [hp, hsame.result, hm.results he]

theorem storedAt {memo : Option Memo} {result : Evaluation Float} (hm : m.Fitting)
    (h : StoredAt id memo result m m') (hr : result.values.length = m.periods) : m'.Fitting := by
  have hp : m'.periods = m.periods := congrArg Timeline.length h.timeline
  refine ⟨by rw [h.series, hp, hm.periods], fun {x e'} he' => ?_⟩
  rw [hp]
  rcases h.entry_cases he' with ⟨-, e, he, hstores⟩ | ⟨-, he⟩
  · exact hstores.length (hm.results he) hr
  · exact hm.results he

theorem steps {memoizes : Bool} {o : Dependency.EvaluationOrder} (hm : m.Fitting) (h : Steps memoizes o id m m') :
    m'.Fitting := by
  cases h with
  | skipped => exact hm
  | circular _ _ hs => exact hm.storedAt hs List.length_replicate
  | reused => exact hm
  | evaluated _ _ _ _ hs => exact hm.storedAt hs (Formula.length_evaluateText _ _)

theorem foldl_step {memoizes : Bool} {o : Dependency.EvaluationOrder} (ids : List CalculationId) {p : Progress}
    (hm : p.model.Fitting) : (ids.foldl (Progress.step memoizes o) p).model.Fitting := by
  induction ids generalizing p with
  | nil => exact hm
  | cons id ids ih => exact ih (hm.steps (step_spec memoizes o p id))

theorem withPending (hm : m.Fitting) (ids : Std.TreeSet CalculationId) : Fitting { m with pending := ids } :=
  ⟨hm.periods, hm.results⟩

theorem run (hm : m.Fitting) (memoizes : Bool) : (m.run memoizes).1.Fitting :=
  (foldl_step m.graph.evaluationOrder.order (p := ⟨m, _⟩) hm).withPending ∅

theorem changes {o : Operation} (hm : m.Fitting) (h : Changes o m m') : m'.Fitting := by
  cases h with
  | nothing => exact hm
  | edited h => exact hm.editedAt h
  | rebound h => exact hm.reboundAt h
  | relabelled h => exact hm.sameResults h
  | ran memoizes => exact (hm.withPending _).run memoizes

end Fitting

theorem Reached.fitting {allowed : Operation → Prop} (h : Reached allowed m) : m.Fitting := by
  induction h with
  | new t o => exact .new t o
  | ofSeries h => exact .ofSeries h
  | after hm _ ih =>
    unfold Model.after
    split
    · next h =>
      obtain ⟨past, hs⟩ := hm.sound
      exact ih.changes (apply_changes hs.toCoherent h)
    · exact ih

/-! ### All parts together -/

/-- All parts of a model fit together. -/
structure Consistent (m : Model) : Prop where
  /-- The index knows the identifiers of the calculations, and no others. -/
  indexed : ∀ id : CalculationId, m.roster.positions.contains id = true ↔ id ∈ m.ids
  /-- The index leads to the calculation with the identifier. -/
  position : ∀ {id : CalculationId} {i : Nat}, m.roster.positions[id]? = some i → ∃ e, m.entries[i]? = some e ∧ Entry.id e = id
  /-- The positions in the index are those of the calculations, without gaps. -/
  positions : ∀ i : Nat, (∃ id : CalculationId, m.roster.positions[id]? = some i) ↔ i < m.entries.length
  /-- The nodes of the graph are the calculations. -/
  nodes : ∀ id : CalculationId, id ∈ m.graph.nodes ↔ id ∈ m.ids
  /-- The precedents of a calculation are what its formula names, whether it exists or not. -/
  precedents : ∀ e ∈ m.entries, ∀ p,
    p ∈ m.graph.precedentsOf e.id ↔ p ∈ namedCalculations e.calculation.formula.toList
  /-- What does not exist has no precedents. -/
  missing : ∀ id ∉ m.ids, ∀ p, p ∉ m.graph.precedentsOf id
  /-- Dependents and precedents are two sides of the same edges. -/
  dependents : ∀ p d, d ∈ m.graph.dependentsOf p ↔ p ∈ m.graph.precedentsOf d
  references : ∀ e ∈ m.entries, e.references = namedReferences e.calculation.formula.toList
  /-- Only calculations are pending. -/
  pending : ∀ id ∈ m.pending, id ∈ m.ids
  /-- With a calculation, all that read it are pending. -/
  readers : ∀ e ∈ m.entries, ∀ p ∈ namedCalculations e.calculation.formula.toList,
    p ∈ m.pending → e.id ∈ m.pending
  /-- Bound series have a value for each month. -/
  series : ∀ {r s}, m.series.get? r = some s → s.length = m.timeline.length
  /-- Results have a value for each month. -/
  results : ∀ e ∈ m.entries, e.result.values.length = m.timeline.length

theorem Coherent.consistent (hm : m.Coherent) (hf : m.Fitting) : m.Consistent where
  indexed id := contains_iff_mem_ids
  position {id i} h := Option.map_eq_some_iff.mp ((m.roster.indexed id i).mp h)
  positions i := by
    constructor
    · rintro ⟨id, h⟩
      obtain ⟨e, he, -⟩ := Option.map_eq_some_iff.mp ((m.roster.indexed _ _).mp h)
      exact (List.getElem?_eq_some_iff.mp he).1
    · intro h
      exact ⟨m.entries[i].id, (m.roster.indexed _ _).mpr (congrArg _ (List.getElem?_eq_getElem h))⟩
  nodes id := hm.nodes.trans contains_iff_mem_ids
  precedents e he p := hm.precedents.trans (names_iff (entry?_of_mem he))
  missing id hid p hp := hid (contains_iff_mem_ids.mp (hm.precedents.mp hp).contains)
  dependents := hm.mirrored
  references e he := hm.references (entry?_of_mem he)
  pending id hid := contains_iff_mem_ids.mp (hm.exist hid)
  readers e he p hp := hm.closed ((names_iff (entry?_of_mem he)).mpr hp)
  series h := (SeriesMap.length_of_get? h).trans hf.periods
  results e he := hf.results (entry?_of_mem he)

/-- Whatever operations led to a model, all its parts fit together. -/
theorem consistent_of_reached {allowed : Operation → Prop} (h : Reached allowed m) : m.Consistent := by
  obtain ⟨past, hs⟩ := h.sound
  exact hs.toCoherent.consistent h.fitting

/-- A calculation in the middle that others read, removed and added again. -/
theorem consistent_of_reached_readded :
    let m := (((((Model.new (.consecutive ⟨24300⟩ 3) .standard).after
      (.addCalculation (.ofFormula 1 "Sales" "R2 * 2"))).after
      (.addCalculation (.ofFormula 2 "Price" "3"))).after
      (.addCalculation (.ofFormula 3 "Total" "R1 + R2"))).after
      (.removeCalculation 2)).after
      (.addCalculation (.ofFormula 2 "Price" "R3"))
    Reached (fun _ => True) m ∧ m.ids = [1, 3, 2] ∧ m.Consistent := by
  intro m
  have h : Reached (fun _ => True) m :=
    (((((Reached.new _ _).after trivial).after trivial).after trivial).after trivial).after trivial
  exact ⟨h, rfl, consistent_of_reached h⟩

end Model

end MonthlyModel
