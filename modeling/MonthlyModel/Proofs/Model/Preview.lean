import MonthlyModel.Proofs.Model.Memoization

/-! A preview foretells what a commit shows.

A preview decides from the old graph whether the formula would close a cycle, and evaluates it over
the old results. A commit rewires the graph, recomputes what reads the calculation and may use memos.
Both come to the same, since a formula that closes no cycle names only calculations that do not read
the edited one, and these keep their values in the run. -/

namespace MonthlyModel

open Formula (Evaluation evaluateText namedReferences namedCalculations)
open Relation

/-- A result that stands for a dependency error. -/
def IsDependencyError (result : Evaluation Float) : Prop :=
  result.error.map FormulaError.kind = some .dependency

/-- What is shown before a commit is what the commit leads to. -/
structure Foretells (periods : Nat) (shown committed : Evaluation Float) : Prop where
  dependency : IsDependencyError shown ↔ IsDependencyError committed
  zeros : IsDependencyError shown →
    shown.values = List.replicate periods 0 ∧ committed.values = List.replicate periods 0
  error : ¬ IsDependencyError shown → committed.error = shown.error
  values : ¬ IsDependencyError shown →
    committed.values = shown.values ∨ sameSeries committed.values shown.values = true

theorem foretells_of_dependency {periods : Nat} {error error' : FormulaError} (h : error.kind = .dependency)
    (h' : error'.kind = .dependency) : Foretells periods (.failed periods error) (.failed periods error') := by
  have hd : IsDependencyError (.failed periods error) := congrArg some h
  have hd' : IsDependencyError (.failed periods error') := congrArg some h'
  exact ⟨iff_of_true hd hd', fun _ => ⟨rfl, rfl⟩, fun hn => absurd hd hn, fun hn => absurd hd hn⟩

theorem foretells_of_agrees {periods : Nat} {shown committed : Evaluation Float} (h : Agrees committed shown)
    (hshown : ∀ {error}, shown.error = some error → shown = .failed periods error)
    (hcommitted : ∀ {error}, committed.error = some error → committed = .failed periods error) :
    Foretells periods shown committed := by
  have herror := error_of_agrees h
  refine ⟨by rw [IsDependencyError, IsDependencyError, herror], fun hd => ?_, fun _ => herror, fun _ => ?_⟩
  · obtain ⟨error, he, -⟩ := Option.map_eq_some_iff.mp hd
    rw [hshown he, hcommitted (herror.trans he)]
    exact ⟨rfl, rfl⟩
  · rcases h with rfl | h
    · exact .inl rfl
    · simp only [sameResult, Bool.and_eq_true] at h
      exact .inr h.2

namespace Model

variable {m m' n : Model} {id x y : CalculationId} {memo : Option Memo} {result : Evaluation Float}

/-! ### Results that a run leaves as they are -/

theorem StoredAt.context (h : StoredAt id memo result m m')
    (hv : ∀ e, m.entry? id = some e → (keep e.result result).values = e.result.values) : m'.context = m.context := by
  refine h.toSameInputs.context fun x => ?_
  by_cases hx : x = id
  · obtain ⟨e, e', he, he', hstores⟩ := h.here
    change (m'.entry? x).map (·.result.values) = (m.entry? x).map (·.result.values)
    rw [hx, he, he', Option.map_some, Option.map_some, hstores.result, hv e he]
  · exact congrArg (Option.map _) (h.others hx)

theorem keep_values {old new : Evaluation Float} (h : new.values = old.values) :
    (keep old new).values = old.values := by
  unfold keep
  split
  · rfl
  · exact h

/-- Bringing up to date what is settled changes no values. -/
theorem Steps.context {memoizes : Bool} (hs : Steps memoizes m.graph.evaluationOrder id m m') (hm : m.Coherent)
    (h : m.Settled id) : m'.context = m.context := by
  cases hs with
  | skipped => rfl
  | reused => rfl
  | circular _ hc hs =>
    refine hs.context fun e he => keep_values ?_
    have hcycle := (Dependency.Graph.cycleOf?_eq_some_iff.mp hc).1
    rw [← hm.reads_eq_edge] at hcycle
    obtain ⟨_, hresult⟩ := (h e he).1 hcycle
    rw [hresult]
    rfl
  | evaluated _ hc hid _ hs =>
    have hn := hm.cycleOf?_eq_none_iff.mp hc
    refine hs.context fun e he => ?_
    cases hid.symm.trans he
    rw [keep_of_agrees ((h _ hid).2 hn)]

theorem Settled.of_context (hs : m.Settled x) (h : SameInputs m m') (he : m'.entry? x = m.entry? x)
    (hc : m'.context = m.context) : m'.Settled x :=
  hs.congr h.timeline (fun _ he' => ⟨_, he.symm.trans he', rfl, rfl⟩) (by rw [h.reads]) fun _ _ _ _ _ => by rw [hc]

/-- On the way through a run, what does not read a calculation is settled, and keeps its values. -/
structure Steady (id : CalculationId) (n m : Model) : Prop where
  same : SameInputs n m
  sound : ∃ past, m.Sound past
  settled : ∀ x, ¬ ReflTransGen n.Names x id → m.Settled x
  results : ∀ x, ¬ ReflTransGen n.Names x id → m.context.results x = n.context.results x

theorem Steady.step_reader {memoizes : Bool} {o : Dependency.EvaluationOrder} (h : Steady id n m)
    (hy : ReflTransGen n.Names y id) (hs : Steps memoizes o y m m') : Steady id n m' := by
  obtain ⟨past, hm⟩ := h.sound
  have hne {x : CalculationId} (hx : ¬ ReflTransGen n.Names x id) : x ≠ y := fun he => hx (he ▸ hy)
  refine ⟨h.same.trans hs.sameInputs, hs.sound hm, fun x hx => ?_, fun x hx => ?_⟩
  · -- What does not read the calculation does not name what does.
    refine hs.settled (hne hx) (fun _ hn => ?_) (h.settled x hx)
    exact absurd (hy.head (h.same.names.mp hn)) hx
  · rw [← h.results x hx]
    exact congrArg (Option.map _) (hs.others (hne hx))

/-- What is settled already is evaluated to the values that it has. -/
theorem Steady.step_other {memoizes : Bool} (h : Steady id n m) (hy : ¬ ReflTransGen n.Names y id)
    (ht : memoizes = true → n.Told y) (hs : Steps memoizes n.graph.evaluationOrder y m m') : Steady id n m' := by
  obtain ⟨past, hm⟩ := h.sound
  have hsame := h.same.trans hs.sameInputs
  have hsound := hs.sound hm
  rw [← h.same.graph] at hs
  have hcontext := hs.context hm.toCoherent (h.settled y hy)
  refine ⟨hsame, hsound, fun x hx => ?_, fun x hx => ?_⟩
  · by_cases hxy : x = y
    · subst hxy
      exact hs.settles hm (fun _ => h.settled x hx) fun hmemoizes _ => h.same.told (ht hmemoizes)
    · exact (h.settled x hx).of_context hs.sameInputs (hs.others hxy) hcontext
  · rw [hcontext]
    exact h.results x hx

theorem Steady.foldl {memoizes : Bool} {p : Progress} (h : Steady id n p.model)
    (ht : memoizes = true → ∀ x, n.Told x) (ids : List CalculationId) :
    Steady id n (ids.foldl (Progress.step memoizes n.graph.evaluationOrder) p).model := by
  induction ids generalizing p with
  | nil => exact h
  | cons y ids ih =>
    have hs := step_spec memoizes n.graph.evaluationOrder p y
    by_cases hy : ReflTransGen n.Names y id
    · exact ih (h.step_reader hy hs)
    · exact ih (h.step_other hy (fun hmemoizes => ht hmemoizes y) hs)

/-- A run leaves the values of what does not read a calculation as they are, if all that was settled. -/
theorem run_results {past : Past} {memoizes : Bool} (hm : m.Sound past) (ht : memoizes = true → ∀ x, m.Told x)
    (h : ∀ x, ¬ ReflTransGen m.Names x id → m.Settled x) (hx : ¬ ReflTransGen m.Names x id) :
    (m.run memoizes).1.context.results x = m.context.results x := by
  have hstart : Steady id m m := ⟨.refl m, ⟨past, hm⟩, h, fun _ _ => rfl⟩
  exact (Steady.foldl (p := ⟨m, _⟩) hstart ht m.graph.evaluationOrder.order).results x hx

theorem Reran.sameFormulas (h : m.Reran m') : SameFormulas m m' := by
  obtain ⟨ids, memoizes, -, -, rfl⟩ := h
  have hf : SameFormulas m { m with pending := ids } := .of_entries rfl rfl
  exact hf.trans (run_sameFormulas _ memoizes)

theorem Reran.series (h : m.Reran m') : m'.series = m.series := by
  obtain ⟨ids, memoizes, -, -, rfl⟩ := h
  exact (foldl_step_sameInputs memoizes m.graph.evaluationOrder _ ⟨{ m with pending := ids }, _⟩).series

theorem Reran.pending (h : m.Reran m') : m'.pending = ∅ := by
  obtain ⟨ids, memoizes, -, -, rfl⟩ := h
  rfl

theorem EditedAt.reaches_iff (h : EditedAt id m m') : ReflTransGen m'.Names x id ↔ ReflTransGen m.Names x id :=
  Dependency.reflTransGen_congr_off fun _ _ hd => h.names hd

/-- After an edit and a run, what does not read the edited calculation has the values it had. -/
theorem EditedAt.results_reran (h : EditedAt id m n) (hm : ∀ x, m.Settled x) (hn : n.Fresh) (hr : n.Reran m')
    (hx : ¬ ReflTransGen m.Names x id) : m'.context.results x = m.context.results x := by
  obtain ⟨ids, memoizes, -, hc, rfl⟩ := hr
  obtain ⟨past, hs⟩ := hn.sound
  calc (run { n with pending := ids } memoizes).1.context.results x = n.context.results x :=
        run_results (hs.withPending hc) (fun _ _ => hn.quiet.told) (fun y hy => h.settled hy (hm y))
          (mt h.reaches_iff.mp hx)
    _ = m.context.results x := congrArg (Option.map _) (h.others fun he => hx (he ▸ .refl))

/-! ### Cycles that a formula closes -/

theorem reads_of_names (h : TransGen m.Names x y) (hy : m.contains y = true) : TransGen m.Reads x y :=
  Dependency.transGen_among h (fun _ _ hn => hn.contains) (fun _ _ hn hc => ⟨hn, hc⟩) hy

theorem wouldClose_iff (hm : m.Charted) {ps : List CalculationId} :
    m.graph.wouldClose id ps = true ↔ ∃ p ∈ ps, ReflTransGen m.Names p id := by
  rw [Dependency.Graph.wouldClose, List.any_eq_true]
  refine exists_congr fun p => and_congr_right fun _ => ?_
  rw [Std.TreeSet.contains_iff_mem, hm.mem_downstream]
  simp

/-- An edited calculation reads itself if its new formula names what reads it. -/
theorem EditedAt.reads_itself_iff (h : EditedAt id m m') (hid : m'.contains id = true) :
    TransGen m'.Reads id id ↔ ∃ p, m'.Names id p ∧ ReflTransGen m.Names p id := by
  calc TransGen m'.Reads id id ↔ TransGen m'.Names id id :=
        ⟨TransGen.mono (fun _ _ hr => hr.1) _ _, fun hn => reads_of_names hn hid⟩
    _ ↔ ∃ p, m'.Names id p ∧ ReflTransGen m'.Names p id := TransGen.head'_iff
    _ ↔ ∃ p, m'.Names id p ∧ ReflTransGen m.Names p id := exists_congr fun _ => and_congr_right fun _ => h.reaches_iff

/-! ### Previews and commits -/

theorem preview_eq (hp : m.pending.isEmpty = true) (formula : String) :
    m.preview id formula = .ok (if m.graph.wouldClose id (namedCalculations formula.toList)
      then .failed m.periods (.selfDependent id) else evaluateText m.context formula.toList) := by
  unfold preview ensureFresh
  rw [if_pos hp]
  split
  · rfl
  · rfl

theorem exists_updateFormula {e : Entry} (he : m.entry? id = some e) (formula : String) :
    ∃ n, m.updateFormula id formula = .ok n ∧ n.entry? id = some (e.withFormula formula) := by
  unfold updateFormula
  rw [entry_eq_ok_iff.mpr he]
  exact ⟨_, rfl, entry?_update_self he rfl⟩

/-- A calculation was given another formula, and the model recomputed. -/
structure Committed (id : CalculationId) (formula : String) (m m' : Model) : Prop where
  fresh : m'.Fresh
  pending : m'.pending = ∅
  timeline : m'.timeline = m.timeline
  series : m'.series = m.series
  here : ∃ e, m'.entry? id = some e ∧ e.calculation.formula = formula
  reads_itself : TransGen m'.Reads id id ↔ ∃ p ∈ namedCalculations formula.toList, ReflTransGen m.Names p id
  results : ∀ x, ¬ ReflTransGen m.Names x id → m'.context.results x = m.context.results x

theorem exists_committed (hm : m.Fresh) (hp : m.pending.isEmpty = true) (hid : m.contains id = true)
    (formula : String) : ∃ updated committed stats, m.updateFormula id formula = .ok updated ∧
      updated.recompute [] = .ok (committed, stats) ∧ Committed id formula m committed := by
  obtain ⟨past, hs⟩ := hm.sound
  have hsettled (x : CalculationId) : m.Settled x :=
    hm.settled x fun hx => absurd hx (Std.TreeSet.not_mem_of_isEmpty hp)
  obtain ⟨e, he⟩ := contains_iff.mp hid
  obtain ⟨n, hn, hentry⟩ := exists_updateFormula he formula
  obtain ⟨hedit, hcoherent⟩ := updateFormula_spec hs.toCoherent hn
  have hfresh : n.Fresh := (apply_changes (o := .updateFormula id formula) hs.toCoherent hn).fresh trivial hm
  obtain ⟨m', stats, hrecompute⟩ : ∃ m' stats, n.recompute [] = .ok (m', stats) := ⟨_, _, rfl⟩
  have hreran := recompute_reran hcoherent hrecompute
  have hsame := hreran.sameFormulas
  have hnames (p : CalculationId) : n.Names id p ↔ p ∈ namedCalculations formula.toList := by
    rw [names_iff hentry]
    rfl
  refine ⟨n, m', stats, hn, hrecompute, (hreran.changes (o := .recompute [])).fresh trivial hfresh, hreran.pending,
    hsame.timeline.trans hedit.timeline, hreran.series.trans hedit.series, ?_, ?_, fun x hx => ?_⟩
  · obtain ⟨e', he', hsource⟩ := hsame.symm.exists_entry hentry
    exact ⟨e', he', congrArg Prod.fst hsource⟩
  · rw [hsame.reads, hedit.reads_itself_iff (contains_iff.mpr ⟨_, hentry⟩)]
    exact exists_congr fun p => and_congr_left fun _ => hnames p
  · exact hedit.results_reran hsettled hfresh hreran hx

namespace Committed

variable {formula : String} (h : Committed id formula m m')
include h

theorem isEmpty_pending : m'.pending.isEmpty = true :=
  h.pending ▸ rfl

theorem evaluateText_eq (hc : ¬ ∃ p ∈ namedCalculations formula.toList, ReflTransGen m.Names p id) :
    evaluateText m'.context formula.toList = evaluateText m.context formula.toList := by
  refine Formula.evaluateText_congr h.timeline fun r hr => bound?_of_results (by rw [h.series]) fun k hk => ?_
  exact h.results k fun hreach => hc ⟨k, Formula.mem_namedCalculations.mpr ⟨r, hr, hk⟩, hreach⟩

theorem foretold (hm : m.Charted) (hp : m.pending.isEmpty = true) : ∃ shown result,
    m.preview id formula = .ok shown ∧ m'.result id = .ok result ∧ Foretells m.periods shown result := by
  have hperiods : m'.periods = m.periods := congrArg Timeline.length h.timeline
  obtain ⟨e, he, hformula⟩ := h.here
  have hresult : m'.result id = .ok e.result := by
    rw [result_eq h.isEmpty_pending, latest_eq_some he]
    rfl
  obtain ⟨hcyclic, hacyclic⟩ := h.fresh.settled id (h.pending ▸ Std.TreeSet.not_mem_emptyc) e he
  refine ⟨_, _, preview_eq hp formula, hresult, ?_⟩
  split
  · next hcloses =>
    obtain ⟨cycle, hfailed⟩ := hcyclic (h.reads_itself.mpr ((wouldClose_iff hm).mp hcloses))
    rw [hfailed, hperiods]
    exact foretells_of_dependency rfl rfl
  -- The formula reads nothing that the edit could change, so it has the value that it had before.
  · next hcloses =>
    have hc := mt (wouldClose_iff hm).mpr hcloses
    have hagrees := hacyclic (mt h.reads_itself.mp hc)
    rw [hformula, h.evaluateText_eq hc] at hagrees
    obtain ⟨past, hs⟩ := h.fresh.sound
    exact foretells_of_agrees hagrees error_evaluateText fun herror => hperiods ▸ hs.failed he herror

end Committed

/-- In every history that leaves the names of calculations alone, once nothing waits for a recompute,
    the preview of a formula is what the calculation has for a result after the formula is committed,
    whatever options the model recomputes under. -/
theorem preview_foretells (h : Reached Operation.SparesCalculations m) (hp : m.pending.isEmpty = true)
    (hid : m.contains id = true) (formula : String) (o : ModelOptions) :
    ∃ shown updated committed stats result, m.preview id formula = .ok shown ∧
      (m.after (.setOptions o)).updateFormula id formula = .ok updated ∧
      updated.recompute [] = .ok (committed, stats) ∧ committed.result id = .ok result ∧
      Foretells m.periods shown result := by
  have hm : (m.after (.setOptions o)).Fresh := (h.after (o := .setOptions o) trivial).fresh
  obtain ⟨past, hs⟩ := hm.sound
  obtain ⟨updated, committed, stats, hupdate, hrecompute, hc⟩ := exists_committed hm hp hid formula
  obtain ⟨shown, result, hshown, hresult, hforetells⟩ := hc.foretold hs.toCharted hp
  exact ⟨shown, updated, committed, stats, result, hshown, hupdate, hrecompute, hresult, hforetells⟩

/-- A calculation that names itself, and is given a formula that does not. -/
theorem preview_foretells_broken_loop :
    let m := ((Model.new (.consecutive ⟨24300⟩ 3) .standard).after
      (.addCalculation (.ofFormula 1 "Loop" "R1"))).after .recomputeAll
    Reached Operation.SparesCalculations m ∧ m.pending.isEmpty = true ∧ m.contains 1 = true ∧
      ∃ shown updated committed stats result, m.preview 1 "5" = .ok shown ∧
        (m.after (.setOptions .standard)).updateFormula 1 "5" = .ok updated ∧
        updated.recompute [] = .ok (committed, stats) ∧ committed.result 1 = .ok result ∧
        Foretells m.periods shown result := by
  intro m
  have hreached : Reached Operation.SparesCalculations m := ((Reached.new _ _).after trivial).after trivial
  have hp : m.pending.isEmpty = true := rfl
  have hid : m.contains 1 = true := (recomputeAll_sameFormulas _).contains
  exact ⟨hreached, hp, hid, preview_foretells hreached hp hid "5" .standard⟩

end Model

end MonthlyModel
