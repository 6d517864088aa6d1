import MonthlyModel.Proofs.Model.Schedule

/-! What a run makes of what a model holds.

Where no memo fits, a run stores for every pending calculation what is due to it: the error of its
cycle, or the value of its formula over the results that the run ends with. Two models with the same
inputs and the same calculations are due the same, whatever their clocks, graphs and orders of
evaluation. -/

namespace MonthlyModel.Model

attribute [ext] RecomputeStats

open Formula (Evaluation evaluateText)
open Relation

variable {m m' : Model} {id x : CalculationId} {memoizes memoizes' : Bool}

/-- The result that belongs to a calculation with a formula, over the results of the others. -/
def due (m : Model) (id : CalculationId) (formula : String) : Evaluation Float :=
  match m.graph.evaluationOrder.cycleOf? id with
  | some cycle => .failed m.periods (.circular cycle)
  | none => evaluateText m.context formula.toList

theorem due_of_cyclic {cycle : List CalculationId} (h : m.graph.evaluationOrder.cycleOf? id = some cycle)
    (formula : String) : m.due id formula = .failed m.periods (.circular cycle) := by
  rw [due, h]

theorem due_of_acyclic (h : m.graph.evaluationOrder.cycleOf? id = none) (formula : String) :
    m.due id formula = evaluateText m.context formula.toList := by
  rw [due, h]

/-- A step stores what is due, if the calculation is pending and has no memo. -/
theorem Steps.latest {e : Entry} (hs : Steps memoizes m.graph.evaluationOrder id m m') (hp : id ∈ m.pending)
    (he : m.entry? id = some e) (hmemo : memoizes = true → e.memo = none) :
    m'.latest id = some (keep e.result (m.due id e.calculation.formula)) := by
  cases hs with
  | skipped hskip => exact absurd hp (hskip (contains_iff.mpr ⟨e, he⟩))
  | circular _ hc hs => rw [hs.keeps, latest_eq_some he, due_of_cyclic hc, Option.map_some]
  | reused _ _ he' hmemoizes hmemo' =>
    cases he.symm.trans he'
    exact nomatch (hmemo hmemoizes).symm.trans hmemo'
  | evaluated _ hc he' _ hs =>
    cases he.symm.trans he'
    rw [hs.keeps, latest_eq_some he, due_of_acyclic hc, Option.map_some]

/-- What is due to a calculation when its turn has come is due to it at the end. -/
theorem due_foldl {done todo : List CalculationId} {p : Progress} {e : Entry} (hm : m.Coherent)
    (hs : SameInputs m p.model) (ho : m.graph.evaluationOrder.order = done ++ id :: todo)
    (he : p.model.entry? id = some e) :
    ((id :: todo).foldl (Progress.step memoizes m.graph.evaluationOrder) p).model.due id e.calculation.formula =
      p.model.due id e.calculation.formula := by
  have hsame := foldl_step_sameInputs memoizes m.graph.evaluationOrder (id :: todo) p
  cases hc : m.graph.evaluationOrder.cycleOf? id with
  | some cycle =>
    have hp : p.model.graph.evaluationOrder.cycleOf? id = some cycle := by rw [hs.graph, hc]
    rw [due_of_cyclic (hsame.graph ▸ hp), due_of_cyclic hp, periods, periods, hsame.timeline]
  | none =>
    have hp : p.model.graph.evaluationOrder.cycleOf? id = none := by rw [hs.graph, hc]
    have hn := hm.cycleOf?_eq_none_iff.mp hc
    rw [due_of_acyclic (hsame.graph ▸ hp), due_of_acyclic hp]
    exact evaluateText_foldl hm hs ho he (not_reads_later hm ho hn)

/-- A run stores what is due for every pending calculation without a memo. -/
theorem run_latest {e : Entry} (hm : m.Coherent) (hx : x ∈ m.pending) (he : m.entry? x = some e)
    (hmemo : memoizes = true → e.memo = none) :
    (m.run memoizes).1.latest x = some (keep e.result ((m.run memoizes).1.due x e.calculation.formula)) := by
  obtain ⟨done, todo, ho⟩ := List.append_of_mem (Dependency.Graph.mem_order.mpr (hm.nodes.mpr (hm.exist hx)))
  obtain ⟨hdone, htodo⟩ := Dependency.Graph.notMem_of_order ho
  -- The run is cut at the calculation: what comes before leaves its entry alone, what comes after its result.
  obtain ⟨start, rfl, hrun⟩ : ∃ p : Progress, p.model = m ∧ (m.run memoizes).1 =
      { (m.graph.evaluationOrder.order.foldl (Progress.step memoizes m.graph.evaluationOrder) p).model with pending := ∅ } :=
    ⟨_, rfl, rfl⟩
  rw [hrun]
  generalize hq : start.model.graph.evaluationOrder.order.foldl _ start = q
  rw [ho, List.foldl_append] at hq
  have hs := foldl_step_sameInputs memoizes start.model.graph.evaluationOrder done start
  have hentry : (done.foldl (Progress.step memoizes start.model.graph.evaluationOrder) start).model.entry? x = some e :=
    (foldl_step_others hdone start).trans he
  generalize done.foldl _ start = p at hq hs hentry
  have hspec := step_spec memoizes start.model.graph.evaluationOrder p x
  have hdue : q.model.due x e.calculation.formula = p.model.due x e.calculation.formula :=
    hq ▸ due_foldl hm hs ho hentry
  rw [← hs.graph] at hspec hq
  have hlatest : q.model.latest x = some (keep e.result (p.model.due x e.calculation.formula)) := by
    rw [← hspec.latest (hs.pending ▸ hx) hentry hmemo, ← hq]
    exact congrArg (Option.map _) (foldl_step_others htodo _)
  rw [← hdue] at hlatest
  exact hlatest

/-! ### Induction along what calculations read -/

/-- What holds of all calculations that read themselves, and of every other one if it holds of what that
    reads, holds of all calculations. -/
theorem Coherent.reads_induction {P : CalculationId → Prop} (hm : m.Coherent)
    (cyclic : ∀ x, m.contains x = true → TransGen m.Reads x x → P x)
    (acyclic : ∀ x, m.contains x = true → ¬ TransGen m.Reads x x → (∀ y, m.Reads x y → P y) → P x)
    (x : CalculationId) (hx : m.contains x = true) : P x := by
  -- The induction is on the place in the order of evaluation.
  induction h : m.graph.evaluationOrder.order.idxOf x using Nat.strong_induction_on generalizing x with
  | _ n ih =>
    by_cases hc : TransGen m.Reads x x
    · exact cyclic x hx hc
    · refine acyclic x hx hc fun y hy => ih _ ?_ y hy.2 rfl
      rw [← h]
      rw [hm.reads_eq_edge] at hc hy
      exact Dependency.Graph.idxOf_order_lt hy fun hyx => hc (TransGen.head' hy hyx)

/-! ### Models that hold the same -/

/-- Two models with the same inputs and the same entries. -/
structure SameContent (m m' : Model) : Prop where
  timeline : m'.timeline = m.timeline
  series : ∀ r, m'.series.get? r = m.series.get? r
  entry : ∀ x, m'.entry? x = m.entry? x

namespace SameContent

theorem contains (h : SameContent m m') : m'.contains x = m.contains x :=
  contains_congr (h.entry x)

theorem reads (h : SameContent m m') : m'.Reads = m.Reads := by
  funext d p
  rw [Reads, h.contains, names_congr (m := m) (by rw [h.entry d])]
  rfl

end SameContent

/-- The cycle of a calculation depends on what calculations read, and on nothing else of the graph. -/
theorem Charted.cycleOf?_congr (hm : m.Charted) (hm' : m'.Charted)
    (hx : TransGen m'.Reads x x ↔ TransGen m.Reads x x) (hc : m'.cycleThrough x = m.cycleThrough x) :
    m'.graph.evaluationOrder.cycleOf? x = m.graph.evaluationOrder.cycleOf? x := by
  refine Option.ext fun c => ?_
  rw [hm.cycleOf?_eq_some_iff, hm'.cycleOf?_eq_some_iff, hx, hc]

theorem Charted.cycleOf?_congr_of_reads (hm : m.Charted) (hm' : m'.Charted) (hr : m'.Reads = m.Reads) :
    m'.graph.evaluationOrder.cycleOf? x = m.graph.evaluationOrder.cycleOf? x :=
  hm.cycleOf?_congr hm' (by rw [hr]) (by rw [cycleThrough, hr, cycleThrough])

/-- A model that a run goes through as a whole: all calculations are pending, and no memo is looked
    at. -/
structure Whole (m : Model) (memoizes : Bool) : Prop extends m.Coherent where
  pending : ∀ {x}, m.contains x = true → x ∈ m.pending
  memo : memoizes = true → ∀ {x e}, m.entry? x = some e → e.memo = none

theorem Whole.memoizing (hm : m.Whole true) (memoizes : Bool) : m.Whole memoizes :=
  ⟨hm.toCoherent, hm.pending, fun _ => hm.memo rfl⟩

theorem Coherent.whole_all (hm : m.Coherent) : Whole { m with pending := m.pending.insertMany m.ids } false :=
  ⟨hm.withAll, hm.mem_all.mpr, fun h => nomatch h⟩

theorem run_contains : (m.run memoizes).1.contains x = m.contains x :=
  (run_sameFormulas m memoizes).contains

theorem run_graph (m : Model) (memoizes : Bool) : (m.run memoizes).1.graph = m.graph :=
  (foldl_step_sameInputs memoizes m.graph.evaluationOrder m.graph.evaluationOrder.order _).graph

theorem run_series (m : Model) (memoizes : Bool) : (m.run memoizes).1.series = m.series :=
  (foldl_step_sameInputs memoizes m.graph.evaluationOrder m.graph.evaluationOrder.order _).series

theorem run_timeline (m : Model) (memoizes : Bool) : (m.run memoizes).1.timeline = m.timeline :=
  (run_sameFormulas m memoizes).timeline

/-- What is due to a calculation at the end of two runs is the same if it is on the same cycle, or if what
    it reads has the same results. -/
theorem due_congr {formula : String} (ht : m'.timeline = m.timeline)
    (hc : m'.graph.evaluationOrder.cycleOf? x = m.graph.evaluationOrder.cycleOf? x)
    (hread : m.graph.evaluationOrder.cycleOf? x = none → ∀ r ∈ Formula.namedReferences formula.toList,
      m'.context.bound? r = m.context.bound? r) : m'.due x formula = m.due x formula := by
  cases hcycle : m.graph.evaluationOrder.cycleOf? x with
  | some cycle => rw [due_of_cyclic (hc.trans hcycle), due_of_cyclic hcycle, periods, periods, ht]
  | none =>
    rw [due_of_acyclic (hc.trans hcycle), due_of_acyclic hcycle]
    exact Formula.evaluateText_congr ht (hread hcycle)

/-- Runs through two models with the same calculations end with related results, if what is stored for a
    calculation is related as soon as the results are of what it reads. -/
theorem Whole.run_related {R : Evaluation Float → Evaluation Float → Prop} (hm : m.Whole memoizes)
    (hm' : m'.Whole memoizes') (hc : ∀ x, m'.contains x = m.contains x)
    (h : ∀ {x e e'}, m.entry? x = some e → m'.entry? x = some e' →
      (¬ TransGen m.Reads x x → ∀ k ∈ Formula.namedCalculations e.calculation.formula.toList,
        Option.Rel R ((m.run memoizes).1.latest k) ((m'.run memoizes').1.latest k)) →
      R (keep e.result ((m.run memoizes).1.due x e.calculation.formula))
        (keep e'.result ((m'.run memoizes').1.due x e'.calculation.formula))) (x : CalculationId) :
    Option.Rel R ((m.run memoizes).1.latest x) ((m'.run memoizes').1.latest x) := by
  -- What a formula names need not exist.
  have hmissing {y : CalculationId} (hy : ¬ m.contains y = true) :
      Option.Rel R ((m.run memoizes).1.latest y) ((m'.run memoizes').1.latest y) := by
    rw [latest_eq_none (entry?_eq_none (by rwa [run_contains])),
      latest_eq_none (entry?_eq_none (by rwa [run_contains, hc]))]
    exact .none
  have hstored {y : CalculationId} (hy : m.contains y = true) (hread : ¬ TransGen m.Reads y y → ∀ z, m.Reads y z →
      Option.Rel R ((m.run memoizes).1.latest z) ((m'.run memoizes').1.latest z)) :
      Option.Rel R ((m.run memoizes).1.latest y) ((m'.run memoizes').1.latest y) := by
    obtain ⟨e, he⟩ := contains_iff.mp hy
    obtain ⟨e', he'⟩ := contains_iff.mp ((hc y).trans hy)
    rw [run_latest hm.toCoherent (hm.pending hy) he fun hmemoizes => hm.memo hmemoizes he,
      run_latest hm'.toCoherent (hm'.pending ((hc y).trans hy)) he' fun hmemoizes => hm'.memo hmemoizes he']
    refine .some (h he he' fun hn k hk => ?_)
    by_cases hk' : m.contains k = true
    · exact hread hn k ⟨⟨e, he, hk⟩, hk'⟩
    · exact hmissing hk'
  by_cases hx : m.contains x = true
  · exact hm.reads_induction (fun y hy hcyclic => hstored hy fun hn => absurd hcyclic hn)
      (fun y hy _ hread => hstored hy fun _ => hread) x hx
  · exact hmissing hx

namespace SameContent

theorem run_latest (h : SameContent m m') (hm : m.Whole memoizes) (hm' : m'.Whole memoizes') (x : CalculationId) :
    (m'.run memoizes').1.latest x = (m.run memoizes).1.latest x := by
  have eq_of_rel {a b : Option (Evaluation Float)} (h : Option.Rel Eq a b) : b = a := by
    cases h with
    | some h => rw [h]
    | none => rfl
  refine eq_of_rel (hm.run_related hm' (fun x => h.contains) (fun {x e e'} he he' hread => ?_) x)
  · cases he'.symm.trans ((h.entry x).trans he)
    refine congrArg (keep e.result) (due_congr ?_ ?_ fun hc r hr => ?_).symm
    · rw [run_timeline, run_timeline, h.timeline]
    · rw [run_graph, run_graph]
      exact hm.cycleOf?_congr_of_reads hm'.toCharted h.reads
    · rw [run_graph, hm.cycleOf?_eq_none_iff] at hc
      refine bound?_congr (by rw [run_series, run_series, h.series]) fun k hk => ?_
      exact eq_of_rel (hread hc k (Formula.mem_namedCalculations.mpr ⟨r, hr, hk⟩))

end SameContent

/-! ### Counts of whole runs -/

theorem step_reused {o : Dependency.EvaluationOrder} {p : Progress}
    (hmemo : memoizes = true → ∀ e, p.model.entry? id = some e → e.memo = none) :
    (p.step memoizes o id).stats.reused = p.stats.reused := by
  unfold Progress.step
  cases he : p.model.entry? id with
  | none => rfl
  | some e =>
    dsimp only
    split
    · unfold Progress.update
      cases o.cycleOf? id with
      | some cycle => rfl
      | none =>
        dsimp only
        split
        · next hkept =>
          simp only [Bool.and_eq_true, decide_eq_true_eq] at hkept
          exact nomatch (hmemo hkept.1 e he).symm.trans hkept.2
        · rfl
    · rfl

theorem foldl_step_reused {o : Dependency.EvaluationOrder} {ids : List CalculationId} {p : Progress} (hn : ids.Nodup)
    (hmemo : memoizes = true → ∀ x ∈ ids, ∀ e, p.model.entry? x = some e → e.memo = none) :
    (ids.foldl (Progress.step memoizes o) p).stats.reused = p.stats.reused := by
  induction ids generalizing p with
  | nil => rfl
  | cons id ids ih =>
    obtain ⟨hid, hn⟩ := List.nodup_cons.mp hn
    rw [List.foldl_cons, ih hn fun hmemoizes x hx e he => ?_]
    · exact step_reused fun hmemoizes => hmemo hmemoizes id List.mem_cons_self
    · rw [(step_spec memoizes o p id).others (ne_of_mem_of_not_mem hx hid)] at he
      exact hmemo hmemoizes x (List.mem_cons_of_mem _ hx) e he

theorem Whole.reused (hm : m.Whole memoizes) : (m.run memoizes).2.reused = 0 :=
  foldl_step_reused (p := ⟨m, _⟩) (Dependency.Graph.nodup_order m.graph) fun hmemoizes _ _ _ he => hm.memo hmemoizes he

theorem Whole.mem_pending (hm : m.Whole memoizes) : x ∈ m.pending ↔ m.contains x = true :=
  ⟨hm.exist, hm.pending⟩

theorem length_entries (m : Model) : m.entries.length = {x | m.contains x = true}.ncard := by
  have hnodup : m.ids.Nodup := m.roster.nodup_ids
  have h := ncard_of_nodup hnodup fun _ => true
  simp only [← contains_iff_mem_ids, and_true, List.countP_true] at h
  rw [h, ids, List.length_map]

namespace SameContent

theorem run_result (h : SameContent m m') (hm : m.Whole memoizes) (hm' : m'.Whole memoizes') (x : CalculationId) :
    (m'.run memoizes').1.result x = (m.run memoizes).1.result x :=
  (result_eq_result_iff rfl rfl).mpr (h.run_latest hm hm' x)

theorem run_stats (h : SameContent m m') (hm : m.Whole memoizes) (hm' : m'.Whole memoizes') :
    (m'.run memoizes').2 = (m.run memoizes).2 := by
  have hids : {x | x ∈ m'.pending} = {x | x ∈ m.pending} := by
    simp only [hm.mem_pending, hm'.mem_pending, h.contains]
  have hcycle (x : CalculationId) : m'.cycleThrough x = m.cycleThrough x := by
    rw [cycleThrough, h.reads, cycleThrough]
  have hs := run_handles hm.toCoherent memoizes
  have hs' := run_handles hm'.toCoherent memoizes'
  rw [hids] at hs'
  have hcalculations : (m'.run memoizes').2.calculations = (m.run memoizes).2.calculations := by
    rw [hs'.calculations, hs.calculations, length_entries, length_entries]
    simp only [h.contains]
  have hreused : (m'.run memoizes').2.reused = (m.run memoizes).2.reused := by rw [hm'.reused, hm.reused]
  -- Neither run has memos to use, so what is handled off cycles is evaluated.
  have hevaluated : (m'.run memoizes').2.evaluated = (m.run memoizes).2.evaluated := by
    have hhandled := hs'.handled
    rw [h.reads, ← hs.handled, hreused] at hhandled
    omega
  have herrors : (m'.run memoizes').2.errors = (m.run memoizes).2.errors := by
    rw [hs'.errors, hs.errors]
    simp only [h.run_result hm hm']
  have hcycles : (m'.run memoizes').2.cycles = (m.run memoizes).2.cycles := by
    rw [hs'.cycles, hs.cycles, h.reads, funext hcycle]
  exact RecomputeStats.ext hcalculations hevaluated hreused herrors hcycles

end SameContent

end MonthlyModel.Model
