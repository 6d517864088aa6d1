import MonthlyModel.Proofs.Double.Arithmetic
import MonthlyModel.Proofs.Model.Content
import MonthlyModel.Proofs.SeriesMap

/-! What the results of a model depend on.

A model keeps a series, or a result, that compares equal to the one that would replace it, so its history
decides which of the two zeros it holds. Formulas show the difference only where they raise a zero to a
negative odd power. Apart from that, models with the same content have the same results. -/

namespace MonthlyModel

open List (Forall₂)
open Formula (Context Evaluation Expr evaluate evaluateText)
open Double (Matches)
open Relation

/-! ### Results that match -/

theorem matches_of_sameSeries {xs ys : Series Float} (h : sameSeries xs ys = true) : Forall₂ Matches xs ys := by
  induction xs generalizing ys with
  | nil =>
    cases ys with
    | nil => exact .nil
    | cons y ys => cases h
  | cons x xs ih =>
    cases ys with
    | nil => cases h
    | cons y ys =>
      obtain ⟨hxy, h⟩ := Bool.and_eq_true_iff.mp h
      exact .cons (.inl hxy) (ih h)

/-- Two results with the same error and matching values. -/
abbrev SameStatus : Evaluation Float → Evaluation Float → Prop :=
  Evaluation.Related Matches

theorem SameStatus.symm {a b : Evaluation Float} (h : SameStatus a b) : SameStatus b a :=
  ⟨h.error.symm, (h.values.imp fun _ _ h => Matches.symm h).flip⟩

theorem SameStatus.trans {a b d : Evaluation Float} (h : SameStatus a b) (h' : SameStatus b d) : SameStatus a d := by
  refine ⟨h'.error.trans h.error, ?_⟩
  obtain ⟨-, hvalues⟩ := h
  obtain ⟨-, hvalues'⟩ := h'
  generalize a.values = xs at hvalues
  generalize b.values = ys at hvalues hvalues'
  generalize d.values = zs at hvalues'
  induction hvalues generalizing zs with
  | nil => exact hvalues'
  | cons hx _ ih =>
    cases hvalues' with
    | cons hy hvalues' => exact .cons (hx.trans hy) (ih _ hvalues')

/-- What is kept in place of a result has its error, and values that match. -/
theorem sameStatus_keep (old new : Evaluation Float) : SameStatus (keep old new) new := by
  unfold keep
  split
  · next h =>
    obtain ⟨herror, hvalues⟩ := Bool.and_eq_true_iff.mp h
    exact ⟨(of_decide_eq_true herror).symm, matches_of_sameSeries hvalues⟩
  · exact .refl Double.congruence new

/-! ### Powers of zero -/

/-- Wherever a power raises a zero to a negative odd number, the zero has the same sign in two contexts. -/
def SameSigns (c c' : Context Float) (base exponent : Expr) : Prop :=
  ∀ xs xs' ys, evaluate c base = .ok xs → evaluate c' base = .ok xs' → evaluate c exponent = .ok ys →
    ∀ (i : Nat) x x' y, xs[i]? = some x → xs'[i]? = some x' → ys[i]? = some y →
      (x == 0) = true → y < 0 → isOdd y = true → Decimal.isNegative x' = Decimal.isNegative x

theorem zipWith_power_matches {xs xs' ys ys' : Series Float} (hx : Forall₂ Matches xs xs') (hy : Forall₂ Matches ys ys')
    (h : ∀ (i : Nat) x x' y, xs[i]? = some x → xs'[i]? = some x' → ys[i]? = some y →
      (x == 0) = true → y < 0 → isOdd y = true → Decimal.isNegative x' = Decimal.isNegative x) :
    Forall₂ Matches (List.zipWith power xs ys) (List.zipWith power xs' ys') := by
  induction hx generalizing ys ys' with
  | nil => exact .nil
  | cons hx _ ih =>
    cases hy with
    | nil => exact .nil
    | cons hy hys =>
      exact .cons (Double.power_matches hx hy (h 0 _ _ _ rfl rfl rfl)) (ih hys fun i => h (i + 1))

theorem SameSigns.keepsPower {c c' : Context Float} {base exponent : Expr} (h : SameSigns c c' base exponent) :
    Formula.KeepsPower Matches c c' base exponent := by
  intro xs xs' ys ys' hxs hxs' hys _ hx hy
  exact zipWith_power_matches hx hy (h xs xs' ys hxs hxs' hys)

namespace Model

variable {m m' : Model} {x : CalculationId} {memoizes memoizes' : Bool}

/-- Wherever a formula raises a zero to a negative odd number, the zero has the same sign in two models. The
    formula of a calculation that reads itself is not evaluated. -/
def SameZeros (m m' : Model) : Prop :=
  ∀ x e t, m.entry? x = some e → ¬ TransGen m.Reads x x → Formula.parse e.calculation.formula.toList = .ok t →
    ∀ p ∈ t.powers, SameSigns m.context m'.context p.1 p.2

/-- Two models with the same timeline, the same calculations, and series that match under the same
    references. -/
structure MatchingContent (m m' : Model) : Prop where
  timeline : m'.timeline = m.timeline
  series : ∀ r, Option.Rel (Forall₂ Matches) (m.series.get? r) (m'.series.get? r)
  calculation : ∀ x, (m'.entry? x).map (·.calculation) = (m.entry? x).map (·.calculation)

theorem bound?_matches {r : Reference} (hs : Option.Rel (Forall₂ Matches) (m.series.get? r) (m'.series.get? r))
    (hl : ∀ k, r.calculation? = some k → Option.Rel SameStatus (m.latest k) (m'.latest k)) :
    Formula.SameBinding Matches m.context m'.context r := by
  have hresults (k : CalculationId) (h : Option.Rel SameStatus (m.latest k) (m'.latest k)) :
      Option.Rel (Forall₂ Matches) (m.context.results k) (m'.context.results k) := by
    rw [results_eq, results_eq]
    generalize m.latest k = a at h
    generalize m'.latest k = b at h
    cases h with
    | some h => exact .some h.values
    | none => exact .none
  refine Formula.rel_or ?_ hs
  cases hk : r.calculation? with
  | none => exact .none
  | some k => exact hresults k (hl k hk)

/-- What is due in two models whose cycles are the same has the same status if what is read matches. -/
theorem due_sameStatus {formula : String} (ht : m'.timeline = m.timeline)
    (hc : m'.graph.evaluationOrder.cycleOf? x = m.graph.evaluationOrder.cycleOf? x)
    (hread : m.graph.evaluationOrder.cycleOf? x = none → ∀ r ∈ Formula.namedReferences formula.toList,
      Formula.SameBinding Matches m.context m'.context r)
    (hp : m.graph.evaluationOrder.cycleOf? x = none → ∀ t, Formula.parse formula.toList = .ok t →
      ∀ p ∈ t.powers, SameSigns m.context m'.context p.1 p.2) :
    SameStatus (m.due x formula) (m'.due x formula) := by
  cases hcycle : m.graph.evaluationOrder.cycleOf? x with
  | some cycle =>
    rw [due_of_cyclic hcycle, due_of_cyclic (hc.trans hcycle), periods, periods, ht]
    exact .refl Double.congruence _
  | none =>
    rw [due_of_acyclic hcycle, due_of_acyclic (hc.trans hcycle)]
    exact Formula.evaluateText_related Double.congruence ht (hread hcycle)
      fun he p hmem => (hp hcycle _ he p hmem).keepsPower

namespace MatchingContent

theorem contains (h : MatchingContent m m') (x : CalculationId) : m'.contains x = m.contains x := by
  have hx := congrArg Option.isSome (h.calculation x)
  rwa [Option.isSome_map, Option.isSome_map, ← contains_def, ← contains_def] at hx

theorem formula (h : MatchingContent m m') {e e' : Entry} (he : m.entry? x = some e) (he' : m'.entry? x = some e') :
    e'.calculation = e.calculation := by
  have hx := h.calculation x
  rw [he, he'] at hx
  exact Option.some.inj hx

theorem reads (h : MatchingContent m m') : m'.Reads = m.Reads := by
  funext d p
  have hformula := congrArg (Option.map Calculation.formula) (h.calculation d)
  rw [Option.map_map, Option.map_map] at hformula
  rw [Reads, h.contains, names_congr (m := m) hformula]
  rfl

theorem run_latest (h : MatchingContent m m') (hm : m.Whole memoizes) (hm' : m'.Whole memoizes')
    (hz : SameZeros (m.run memoizes).1 (m'.run memoizes').1) (x : CalculationId) :
    Option.Rel SameStatus ((m.run memoizes).1.latest x) ((m'.run memoizes').1.latest x) := by
  refine hm.run_related hm' h.contains (fun {x e e'} he he' hread => ?_) x
  -- What the calculations kept of their histories has the status of what is due to them.
  refine (sameStatus_keep _ _).trans (SameStatus.trans ?_ (sameStatus_keep _ _).symm)
  rw [h.formula he he']
  obtain ⟨e₁, he₁, hsource⟩ := (run_sameFormulas m memoizes).symm.exists_entry he
  have hformula : e₁.calculation.formula = e.calculation.formula := congrArg Prod.fst hsource
  have hacyclic (hc : (m.run memoizes).1.graph.evaluationOrder.cycleOf? x = none) : ¬ TransGen m.Reads x x := by
    rw [run_graph, hm.cycleOf?_eq_none_iff] at hc
    exact hc
  refine due_sameStatus ?_ ?_ (fun hc r hr => ?_) fun hc t ht => ?_
  · rw [run_timeline, run_timeline, h.timeline]
  · rw [run_graph, run_graph]
    exact hm.cycleOf?_congr_of_reads hm'.toCharted h.reads
  · refine bound?_matches (by rw [run_series, run_series]; exact h.series r) fun k hk => ?_
    exact hread (hacyclic hc) k (Formula.mem_namedCalculations.mpr ⟨r, hr, hk⟩)
  · refine hz x e₁ t he₁ ?_ (hformula ▸ ht)
    rw [(run_sameFormulas m memoizes).reads]
    exact hacyclic hc

end MatchingContent

theorem recomputeAll_result (m : Model) (x : CalculationId) :
    m.recomputeAll.1.result x = (m.recomputeAll.1.latest x).elim (.error (.notFound x)) .ok :=
  result_eq rfl

/-- Whatever their histories are, two models with the same timeline, the same calculations and matching
    series have the same results once all is recomputed: the same errors, and values that match month by
    month. Zeros that formulas raise to negative odd powers have to have the same sign in both. -/
theorem recomputeAll_sameStatus {allowed allowed' : Operation → Prop} (h : Reached allowed m)
    (h' : Reached allowed' m') (hc : MatchingContent m m') (hz : SameZeros m.recomputeAll.1 m'.recomputeAll.1)
    (x : CalculationId) : Corresponds SameStatus (m.recomputeAll.1.result x) (m'.recomputeAll.1.result x) := by
  obtain ⟨past, hs⟩ := h.sound
  obtain ⟨past', hs'⟩ := h'.sound
  have hpending : MatchingContent { m with pending := m.pending.insertMany m.ids }
      { m' with pending := m'.pending.insertMany m'.ids } := ⟨hc.timeline, hc.series, hc.calculation⟩
  have hlatest : Option.Rel SameStatus (m.recomputeAll.1.latest x) (m'.recomputeAll.1.latest x) :=
    hpending.run_latest hs.toCoherent.whole_all hs'.toCoherent.whole_all hz x
  rw [recomputeAll_result, recomputeAll_result]
  generalize m.recomputeAll.1.latest x = a at hlatest
  generalize m'.recomputeAll.1.latest x = b at hlatest
  cases hlatest with
  | some h => exact .ok h
  | none => exact .error _

/-! ### A model that raises one series to the power of another -/

theorem parse_raising : Formula.parse "V1 ^ V2".toList =
    .ok (.binary .power (.reference ⟨.input, [1], none, none⟩) (.reference ⟨.input, [2], none, none⟩)) := by
  cbv

theorem resolve_series {r : Reference} {s : Series Float} (hr : r.calculation? = none) (hs : m.series.get? r = some s)
    (hl : s.length = m.periods) : m.recomputeAll.1.context.resolve r = .ok s := by
  have htimeline : m.recomputeAll.1.timeline = m.timeline := run_timeline _ _
  have hseries : m.recomputeAll.1.series = m.series := run_series _ _
  have hbound : m.recomputeAll.1.context.bound? r =
      (r.calculation?.bind m.recomputeAll.1.context.results).or (m.recomputeAll.1.series.get? r) := rfl
  refine Formula.Context.resolve_eq_ok_iff.mpr ⟨?_, hl.trans (congrArg Timeline.length htimeline).symm⟩
  rw [hbound, hr, hseries, hs]
  rfl

/-- A calculation with the formula `V1 ^ V2` over one month has the power for its result, unless it keeps
    the result that it has. -/
theorem result_raising {e : Entry} {s t : Float} (hm : m.Coherent) (hp : m.periods = 1)
    (hs : m.series.get? ⟨.input, [1], none, none⟩ = some [s]) (ht : m.series.get? ⟨.input, [2], none, none⟩ = some [t])
    (he : m.entry? x = some e) (hf : e.calculation.formula = "V1 ^ V2") :
    m.recomputeAll.1.result x = .ok (keep e.result ⟨[power s t], none⟩) := by
  have hw := hm.whole_all
  -- The formula names no calculation, so no cycle goes through it.
  have hcycle : m.recomputeAll.1.graph.evaluationOrder.cycleOf? x = none := by
    rw [recomputeAll, run_graph, hw.cycleOf?_eq_none_iff]
    intro h
    obtain ⟨k, ⟨⟨e', he', hk⟩, -⟩, -⟩ := TransGen.head'_iff.mp h
    have hnamed : Formula.namedCalculations "V1 ^ V2".toList = [] := by cbv
    cases he.symm.trans he'
    rw [hf, hnamed] at hk
    cases hk
  have hbase : m.recomputeAll.1.context.resolve ⟨.input, [1], none, none⟩ = .ok [s] :=
    resolve_series rfl hs hp.symm
  have hexponent : m.recomputeAll.1.context.resolve ⟨.input, [2], none, none⟩ = .ok [t] :=
    resolve_series rfl ht hp.symm
  have hvalue : evaluateText m.recomputeAll.1.context "V1 ^ V2".toList = ⟨[power s t], none⟩ := by
    rw [Formula.evaluateText_of_parse parse_raising, evaluate, evaluate, evaluate, hbase, hexponent]
    rfl
  have hlatest : m.recomputeAll.1.latest x = _ := run_latest hw.toCoherent (hw.pending (contains_iff.mpr ⟨e, he⟩)) he
    fun h => absurd h Bool.false_ne_true
  change _ = some (keep e.result (m.recomputeAll.1.due x e.calculation.formula)) at hlatest
  rw [recomputeAll_result, hlatest, hf, due_of_acyclic hcycle, hvalue]
  rfl

/-- A model with two bound numbers and a calculation that raises one to the power of the other. -/
def raising (s t : Float) : Model :=
  (((Model.new (.consecutive ⟨24300⟩ 1) .standard).after (.setSeries ⟨.input, [1], none, none⟩ [s])).after
    (.setSeries ⟨.input, [2], none, none⟩ [t])).after (.addCalculation (.ofFormula 1 "Power" "V1 ^ V2"))

theorem raising_reached (s t : Float) : Reached Operation.SparesCalculations (raising s t) :=
  (((Reached.new _ _).after (by simp [Operation.SparesCalculations])).after
    (by simp [Operation.SparesCalculations])).after trivial

theorem raising_result (s t : Float) :
    (raising s t).recomputeAll.1.result 1 = .ok (keep ⟨[0], none⟩ ⟨[power s t], none⟩) := by
  obtain ⟨past, hs⟩ := (raising_reached s t).sound
  have hentry : entry? (raising s t) 1 = some (Entry.new 1 (.ofFormula 1 "Power" "V1 ^ V2")) := rfl
  exact result_raising hs.toCoherent rfl rfl rfl hentry rfl

theorem raising_series (s t : Float) (r : Reference) : (raising s t).series.get? r =
    if ⟨.input, [2], none, none⟩ = r then some [t] else if ⟨.input, [1], none, none⟩ = r then some [s]
    else (SeriesMap.ofTimeline (.consecutive ⟨24300⟩ 1)).get? r := by
  have hs : [s].length = (SeriesMap.ofTimeline (.consecutive ⟨24300⟩ 1) : SeriesMap Float).periods := rfl
  have ht : [t].length = (SeriesMap.bind _ ⟨.input, [1], none, none⟩ [s] hs).periods := rfl
  have hseries : (raising s t).series = SeriesMap.bind _ ⟨.input, [2], none, none⟩ [t] ht := rfl
  rw [hseries, SeriesMap.get?_bind, SeriesMap.get?_bind]

theorem raising_related {R : Series Float → Series Float → Prop} {s s' t : Float} (hs : R [s] [s']) (ht : R [t] [t])
    (hr : ∀ p ∈ (SeriesMap.ofTimeline (.consecutive ⟨24300⟩ 1) : SeriesMap Float).bindings.toList, R p.2 p.2)
    (r : Reference) : Option.Rel R ((raising s t).series.get? r) ((raising s' t).series.get? r) := by
  rw [raising_series, raising_series]
  split
  · exact .some ht
  · split
    · exact .some hs
    · cases h : (SeriesMap.ofTimeline (.consecutive ⟨24300⟩ 1) : SeriesMap Float).get? r with
      | none => exact .none
      | some xs => exact .some (hr _ (SeriesMap.mem_toList_bindings.mpr h))

theorem raising_timeline (s t : Float) : (raising s t).timeline = .consecutive ⟨24300⟩ 1 :=
  rfl

theorem raising_entries (s t : Float) : (raising s t).entries = [Entry.new 1 (.ofFormula 1 "Power" "V1 ^ V2")] :=
  rfl

/-- The squares of the two zeros. -/
theorem recomputeAll_sameStatus_square :
    let m := raising 0 2
    let m' := raising (-0) 2
    Reached Operation.SparesCalculations m ∧ Reached Operation.SparesCalculations m' ∧ MatchingContent m m' ∧
      SameZeros m.recomputeAll.1 m'.recomputeAll.1 ∧
      Corresponds SameStatus (m.recomputeAll.1.result 1) (m'.recomputeAll.1.result 1) := by
  intro m m'
  have hc : MatchingContent m m' := by
    have hs : Forall₂ Matches [0] [-0] := .cons (by decide +kernel) .nil
    refine ⟨(raising_timeline _ _).trans (raising_timeline _ _).symm, ?_, fun x => ?_⟩
    · exact raising_related hs (Double.congruence.series [2]) fun p _ => Double.congruence.series p.2
    · rw [entry?_congr ((raising_entries _ _).trans (raising_entries _ _).symm)]
  have hz : SameZeros m.recomputeAll.1 m'.recomputeAll.1 := by
    intro x e t he _ ht p hp
    obtain ⟨e₀, he₀, hsource⟩ := (recomputeAll_sameFormulas m).exists_entry he
    have hentry := mem_of_found he₀
    rw [raising_entries, List.mem_singleton] at hentry
    have hformula : e.calculation.formula = "V1 ^ V2" := by
      rw [hentry] at hsource
      exact (congrArg Prod.fst hsource).symm
    rw [hformula, parse_raising] at ht
    cases ht
    obtain rfl := List.mem_singleton.mp hp
    -- The exponent is two, and only negative exponents tell zeros apart.
    intro xs xs' ys _ _ hys i _ _ y _ _ hy _ hneg
    have hexponent : m.recomputeAll.1.context.resolve ⟨.input, [2], none, none⟩ = .ok [2] := resolve_series rfl rfl rfl
    rw [evaluate, hexponent] at hys
    cases hys
    obtain rfl : y = 2 := List.mem_singleton.mp (List.mem_of_getElem? hy)
    exact absurd hneg (by decide +kernel)
  have h := raising_reached 0 2
  have h' := raising_reached (-0) 2
  exact ⟨h, h', hc, hz, recomputeAll_sameStatus h h' hc hz 1⟩

/-- The reciprocals of the two zeros. The zeros compare equal, and so do the series that hold one of them;
    what becomes of them does not. -/
theorem not_sameStatus_reciprocal :
    let m := raising 0 (-1)
    let m' := raising (-0) (-1)
    Reached Operation.SparesCalculations m ∧ Reached Operation.SparesCalculations m' ∧ m'.timeline = m.timeline ∧
      (∀ r, Option.Rel (fun s s' => sameSeries s s' = true) (m.series.get? r) (m'.series.get? r)) ∧
      (∀ x, (m'.entry? x).map (·.calculation) = (m.entry? x).map (·.calculation)) ∧
      ¬ Corresponds SameStatus (m.recomputeAll.1.result 1) (m'.recomputeAll.1.result 1) := by
  intro m m'
  refine ⟨raising_reached _ _, raising_reached _ _, (raising_timeline _ _).trans (raising_timeline _ _).symm, ?_,
    fun x => ?_, fun h => ?_⟩
  · exact raising_related (by decide +kernel) (by decide +kernel) (by decide +kernel)
  · rw [entry?_congr ((raising_entries _ _).trans (raising_entries _ _).symm)]
  · have hkeep (s : Float) (hs : ¬ sameSeries [0] [power s (-1)] = true) :
        keep ⟨[0], none⟩ ⟨[power s (-1)], none⟩ = ⟨[power s (-1)], none⟩ := if_neg (by simpa [sameResult] using hs)
    rw [raising_result, raising_result, hkeep 0 (by decide +kernel), hkeep (-0) (by decide +kernel)] at h
    cases h with
    | ok h =>
      cases h.values with
      | cons h _ => exact absurd h (by decide +kernel)

end Model

end MonthlyModel
