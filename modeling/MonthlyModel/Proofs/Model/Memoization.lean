import MonthlyModel.Proofs.Model.Freshness

/-! Recomputing with memos and without.

Two runs over the same pending calculations, one that keeps results because of memos and one that
evaluates all of them, go in step: as long as every result that is kept is the one that evaluation
gives, the models differ in revisions and memos only. So memos change nothing exactly if the run that
uses them leaves settled what was pending. It does so unless a formula names a missing calculation
under whose name a series was bound or unbound: memos do not look at the revision of such a series. -/

namespace MonthlyModel

open Formula (Evaluation evaluateText)

/-- The result that storing leaves: an equal one is kept. -/
def keep (old new : Evaluation Float) : Evaluation Float :=
  if sameResult old new then old else new

theorem keep_of_agrees {old new : Evaluation Float} (h : Agrees old new) : keep old new = old := by
  unfold keep
  rcases h with rfl | h
  · exact ite_self _
  · exact if_pos h

theorem error_of_agrees {old new : Evaluation Float} (h : Agrees old new) : old.error = new.error := by
  rcases h with rfl | h
  · rfl
  · simp only [sameResult, Bool.and_eq_true, decide_eq_true_eq] at h
    exact h.1

theorem Entry.Stores.result {clock clock' : Nat} {memo : Option Memo} {result : Evaluation Float} {e e' : Entry}
    (h : Stores clock memo result e clock' e') : e'.result = keep e.result result := by
  unfold keep
  cases h with
  | kept h => rw [if_pos h]
  | changed h => rw [if_neg h]

namespace Model

open Relation

variable {m m' n n' : Model} {id x : CalculationId} {memo memo' : Option Memo} {result : Evaluation Float}

theorem SameInputs.symm (h : SameInputs m m') : SameInputs m' m :=
  ⟨h.toSameFormulas.symm, h.series.symm, h.graph.symm, h.inputRevisions.symm, h.pending.symm⟩

/-! ### Models that differ in revisions and memos only -/

structure Alike (m m' : Model) : Prop extends SameInputs m m' where
  latest : ∀ x, m'.latest x = m.latest x

theorem SameInputs.context (h : SameInputs m m') (hr : ∀ x, m'.context.results x = m.context.results x) :
    m'.context = m.context := by
  have hresults : m'.context.results = m.context.results := funext hr
  calc m'.context = ⟨m'.timeline, m'.series, m'.context.results⟩ := rfl
    _ = m.context := by
      rw [h.timeline, h.series, hresults]
      rfl

theorem Alike.context (h : Alike m m') : m'.context = m.context := by
  refine h.toSameInputs.context fun x => ?_
  have := congrArg (Option.map (·.values)) (h.latest x)
  rwa [Model.latest, Model.latest, Option.map_map, Option.map_map] at this

theorem Alike.entry (h : Alike m m') {e : Entry} (he : m.entry? id = some e) :
    ∃ e', m'.entry? id = some e' ∧ e'.result = e.result ∧ e'.calculation.formula = e.calculation.formula := by
  obtain ⟨e', he', hsource⟩ := h.symm.exists_entry he
  have hresult := h.latest id
  rw [latest_eq_some he, latest_eq_some he'] at hresult
  exact ⟨e', he', Option.some.inj hresult, congrArg Prod.fst hsource⟩

theorem Alike.settled (h : Alike m m') (hs : m'.Settled x) : m.Settled x := by
  refine hs.congr h.timeline.symm (fun e he => ?_) (by rw [h.reads]) fun _ _ _ r _ => by rw [h.context]
  obtain ⟨e', he', hresult, hformula⟩ := h.entry he
  exact ⟨e', he', hformula.symm, hresult.symm⟩

theorem StoredAt.keeps (h : StoredAt id memo result m n) :
    n.latest id = (m.latest id).map (keep · result) := by
  obtain ⟨e, e', he, he', hstores⟩ := h.here
  rw [latest_eq_some he, latest_eq_some he', hstores.result, Option.map_some]

theorem StoredAt.keeps_others (h : StoredAt id memo result m n) (hx : x ≠ id) : n.latest x = m.latest x :=
  congrArg (Option.map _) (h.others hx)

/-- Storing the same result in both models leaves them alike. -/
theorem Alike.stored (h : Alike m m') (hs : StoredAt id memo result m n) (hs' : StoredAt id memo' result m' n') :
    Alike n n' := by
  refine ⟨(hs.toSameInputs.symm.trans h.toSameInputs).trans hs'.toSameInputs, fun x => ?_⟩
  by_cases hx : x = id
  · rw [hx, hs.keeps, hs'.keeps, h.latest]
  · rw [hs.keeps_others hx, hs'.keeps_others hx, h.latest]

/-- Storing a result in one model only leaves them alike if it agrees with what is there. -/
theorem Alike.stored_agreeing (h : Alike m m') {e : Entry} (he : m.entry? id = some e) (ha : Agrees e.result result)
    (hs' : StoredAt id memo' result m' n') : Alike m n' := by
  refine ⟨h.toSameInputs.trans hs'.toSameInputs, fun x => ?_⟩
  by_cases hx : x = id
  · rw [hx, hs'.keeps, h.latest, latest_eq_some he, Option.map_some, keep_of_agrees ha]
  · rw [hs'.keeps_others hx, h.latest]

/-! ### Two runs in step -/

/-- A run that uses memos and one that does not have the same results, and have counted the same. -/
structure InStep (p q : Progress) : Prop where
  alike : Alike p.model q.model
  errors : q.stats.errors = p.stats.errors
  cycles : q.stats.cycles = p.stats.cycles
  evaluated : q.stats.evaluated = p.stats.evaluated + p.stats.reused

variable {p q : Progress} {o : Dependency.EvaluationOrder}

theorem InStep.step (h : InStep p q) (ha : ∀ e, p.model.entry? id = some e → id ∈ p.model.pending →
      o.cycleOf? id = none → e.memo = some (p.model.memo e) →
      Agrees e.result (evaluateText p.model.context e.calculation.formula.toList)) :
    InStep (p.step true o id) (q.step false o id) := by
  have halike := h.alike
  unfold Progress.step
  rw [halike.pending]
  cases he : p.model.entry? id with
  | none =>
    have hnone : q.model.entry? id = none := by
      have := halike.latest id
      rwa [latest_eq_none he, latest, Option.map_eq_none_iff] at this
    rw [hnone]
    exact h
  | some e =>
    obtain ⟨e', he', hresult, hformula⟩ := halike.entry he
    rw [he']
    obtain rfl := id_of_found he
    have hid := id_of_found he'
    dsimp only
    split
    · next hp =>
      cases hc : o.cycleOf? e.id with
      | some cycle =>
        have hperiods : q.model.periods = p.model.periods := congrArg Timeline.length halike.timeline
        unfold Progress.update
        rw [hperiods, hid]
        exact ⟨halike.stored (store_spec he) (store_spec he'), congrArg (· + _) h.errors, h.cycles, h.evaluated⟩
      | none =>
        have hvalue : evaluateText q.model.context e'.calculation.formula.toList =
            evaluateText p.model.context e.calculation.formula.toList := by
          rw [halike.context, hformula]
        unfold Progress.update
        simp only [Bool.false_and, Bool.true_and, Bool.false_eq_true, if_false, decide_eq_true_eq]
        rw [hid, hvalue]
        -- One run keeps the result where the other stores what it evaluates; the two have to agree.
        split
        · next hmemo =>
          have hagrees := ha e he (Std.TreeSet.contains_iff_mem.mp hp) hc hmemo
          refine ⟨halike.stored_agreeing he hagrees (store_spec he'), ?_, h.cycles, congrArg (· + 1) h.evaluated⟩
          simp only [RecomputeStats.countError]
          rw [h.errors, error_of_agrees hagrees]
        · refine ⟨halike.stored (store_spec he) (store_spec he'), congrArg (· + _) h.errors, h.cycles, ?_⟩
          simp only [RecomputeStats.countError]
          rw [h.evaluated]
          omega
    · exact h

/-! ### Whole runs -/

theorem foldl_step_others {memoizes : Bool} {ids : List CalculationId} (hx : x ∉ ids) (p : Progress) :
    (ids.foldl (Progress.step memoizes o) p).model.entry? x = p.model.entry? x := by
  induction ids generalizing p with
  | nil => rfl
  | cons id ids ih =>
    have hid := List.ne_of_not_mem_cons hx
    exact (ih (List.not_mem_of_not_mem_cons hx) _).trans ((step_spec memoizes o p id).others hid)

theorem Steps.eq_of_memo (h : Steps true o id m m') {e : Entry} (he : m.entry? id = some e)
    (hc : o.cycleOf? id = none) (hmemo : e.memo = some (m.memo e)) : m' = m := by
  cases h with
  | skipped => rfl
  | circular _ hc' => exact nomatch hc.symm.trans hc'
  | reused => rfl
  | evaluated _ _ he' hm =>
    cases he.symm.trans he'
    exact absurd ⟨rfl, hmemo⟩ hm

/-- Of what a calculation reads nothing comes later than it, unless it reads itself. -/
theorem not_reads_later {done todo : List CalculationId} (hm : m.Coherent)
    (ho : m.graph.evaluationOrder.order = done ++ id :: todo) (hn : ¬ TransGen m.Reads id id) :
    ∀ k ∈ id :: todo, ¬ m.Reads id k := by
  have hpairs := Dependency.Graph.pairwise_order m.graph
  rw [ho] at hpairs
  have hlater := (List.pairwise_cons.mp (List.pairwise_append.mp hpairs).2.1).1
  intro k hk hread
  refine hn ?_
  rcases List.mem_cons.mp hk with rfl | hk
  · exact .single hread
  · rw [hm.reads_eq_edge] at hread ⊢
    exact TransGen.head' hread (hlater k hk (.single hread))

/-- A formula keeps its value while nothing is brought up to date that it reads. -/
theorem evaluateText_foldl {done todo : List CalculationId} {memoizes : Bool} {e : Entry} (hm : m.Coherent)
    (hs : SameInputs m p.model) (ho : m.graph.evaluationOrder.order = done ++ todo)
    (he : p.model.entry? id = some e) (hn : ∀ k ∈ todo, ¬ m.Reads id k) :
    evaluateText (todo.foldl (Progress.step memoizes m.graph.evaluationOrder) p).model.context
      e.calculation.formula.toList = evaluateText p.model.context e.calculation.formula.toList := by
  have hsame := foldl_step_sameInputs memoizes m.graph.evaluationOrder todo p
  refine Formula.evaluateText_congr hsame.timeline fun r hr => ?_
  refine bound?_congr (by rw [hsame.series]) fun k hk => congrArg _ (foldl_step_others (fun hmem => hn k hmem ?_) p)
  have hnames : m.Names id k := hs.names.mp ⟨e, he, Formula.mem_namedCalculations.mpr ⟨r, hr, hk⟩⟩
  have hnode : k ∈ m.graph.nodes := Dependency.Graph.mem_order.mp (ho ▸ List.mem_append_right _ hmem)
  exact ⟨hnames, hm.nodes.mp hnode⟩

/-- What is settled at the end of a run was so when its turn had come: of what it reads nothing comes
    later. -/
theorem agrees_of_settled {done todo : List CalculationId} {memoizes : Bool} {e : Entry} (hm : m.Coherent)
    (hs : SameInputs m p.model) (ho : m.graph.evaluationOrder.order = done ++ id :: todo)
    (he : p.model.entry? id = some e) (hn : ¬ TransGen m.Reads id id)
    (h : (todo.foldl (Progress.step memoizes m.graph.evaluationOrder) p).model.Settled id) :
    Agrees e.result (evaluateText p.model.context e.calculation.formula.toList) := by
  have hid := (Dependency.Graph.notMem_of_order ho).2
  have hlater := not_reads_later hm ho hn
  have hsame := foldl_step_sameInputs memoizes m.graph.evaluationOrder todo p
  have hagrees := (h e (foldl_step_others hid p ▸ he)).2 (by rwa [hsame.reads, hs.reads])
  have hnext := ho.trans (List.append_cons done id todo)
  rwa [evaluateText_foldl hm hs hnext he fun k hk => hlater k (List.mem_cons_of_mem _ hk)] at hagrees

theorem InStep.foldl {done todo : List CalculationId} (hm : m.Coherent) (h : InStep p q)
    (hs : SameInputs m p.model) (ho : m.graph.evaluationOrder.order = done ++ todo)
    (hsettled : ∀ x ∈ m.pending,
      (todo.foldl (Progress.step true m.graph.evaluationOrder) p).model.Settled x) :
    InStep (todo.foldl (Progress.step true m.graph.evaluationOrder) p)
      (todo.foldl (Progress.step false m.graph.evaluationOrder) q) := by
  induction todo generalizing done p q with
  | nil => exact h
  | cons id todo ih =>
    have hspec := step_spec true m.graph.evaluationOrder p id
    have hnext := ho.trans (List.append_cons done id todo)
    refine ih (h.step fun e he hp hc hmemo => ?_) (hs.trans hspec.sameInputs) hnext hsettled
    have hn := hm.cycleOf?_eq_none_iff.mp hc
    -- A step that finds its memo leaves the model alone, so it can be looked at after the step.
    have hstay := hspec.eq_of_memo he hc hmemo
    have := agrees_of_settled hm (hs.trans hspec.sameInputs) ho (hstay ▸ he) hn (hsettled id (hs.pending ▸ hp))
    rwa [hstay] at this

/-- Two recomputes that leave the same results, and report the same errors and cycles; what one has
    kept or evaluated, the other has evaluated. -/
structure SameOutcome (kept all : Model × RecomputeStats) : Prop where
  results : ∀ x, all.1.result x = kept.1.result x
  errors : all.2.errors = kept.2.errors
  cycles : all.2.cycles = kept.2.cycles
  evaluated : all.2.evaluated = kept.2.evaluated + kept.2.reused

theorem run_sameOutcome (hm : m.Coherent) (h : Alike m m')
    (hs : ∀ x ∈ m.pending, (m.run true).1.Settled x) : SameOutcome (m.run true) (m'.run false) := by
  have hlength : m'.entries.length = m.entries.length := by simpa [ids] using congrArg List.length h.ids
  unfold run at hs ⊢
  rw [h.graph, h.pending, hlength]
  dsimp only at hs ⊢
  have hstep := InStep.foldl (p := ⟨m, _⟩) (q := ⟨m', _⟩) hm ⟨h, rfl, rfl, rfl⟩ (.refl m) (List.nil_append _).symm hs
  exact ⟨fun x => (result_eq_result_iff rfl rfl).mpr (hstep.alike.latest x), hstep.errors, hstep.cycles, hstep.evaluated⟩

theorem SameInputs.run (h : SameInputs m m') (memoizes memoizes' : Bool) :
    SameInputs (m.run memoizes).1 (m'.run memoizes').1 := by
  have hrun (m : Model) (memoizes : Bool) : ∃ n, SameInputs m n ∧ (m.run memoizes).1 = { n with pending := ∅ } :=
    ⟨_, foldl_step_sameInputs memoizes m.graph.evaluationOrder m.graph.evaluationOrder.order ⟨m, _⟩, rfl⟩
  obtain ⟨n, hs, hn⟩ := hrun m memoizes
  obtain ⟨n', hs', hn'⟩ := hrun m' memoizes'
  have hall := (hs.symm.trans h).trans hs'
  rw [hn, hn']
  exact ⟨⟨hall.timeline, hall.ids, hall.source⟩, hall.series, hall.graph, hall.inputRevisions, rfl⟩

/-- A model that recomputes what is pending, with memos or without. -/
def memoizing (m : Model) (memoizes : Bool) : Model :=
  { m with options := ⟨memoizes, false⟩ }

theorem recompute_memoizing {changed : List CalculationId} (hc : ∀ id ∈ changed, m.contains id = true)
    (memoizes : Bool) :
    (m.memoizing memoizes).recompute changed = .ok (run ((m.memoizing memoizes).markPending changed) memoizes) := by
  have hc : ∀ id ∈ changed, contains (m.memoizing memoizes) id = true := hc
  exact recompute_eq hc

/-- Recomputing with memos and without has one outcome exactly if the run with memos settles all that is
    pending. That is so wherever no pending formula names a missing calculation under whose name a series
    was ever bound or unbound. -/
theorem recompute_memoized (h : Reached (fun _ => True) m) {changed : List CalculationId}
    (hc : ∀ id ∈ changed, m.contains id = true) :
    ∃ kept all, (m.memoizing true).recompute changed = .ok kept ∧ (m.memoizing false).recompute changed = .ok all ∧
      (SameOutcome kept all ↔ ∀ x ∈ (m.markPending changed).pending, kept.1.Settled x) ∧
      ((∀ x ∈ (m.markPending changed).pending, m.Told x) → SameOutcome kept all) := by
  refine ⟨_, _, recompute_memoizing hc true, recompute_memoizing hc false, ?_⟩
  obtain ⟨past, hs⟩ := h.sound
  have hsound (memoizes : Bool) : Sound ((m.memoizing memoizes).markPending changed) past := by
    have hsame : SameResults m (m.memoizing memoizes) := .withOptions m _
    have hc := hsame.coherent hs.toCoherent rfl rfl
    exact (hsame.sound hc hs).withPending (hc.markPending changed)
  have halike : Alike ((m.memoizing true).markPending changed) ((m.memoizing false).markPending changed) :=
    ⟨⟨.of_entries rfl rfl, rfl, rfl, rfl, rfl⟩, fun _ => rfl⟩
  have hiff : SameOutcome (run ((m.memoizing true).markPending changed) true)
      (run ((m.memoizing false).markPending changed) false) ↔
      ∀ x ∈ (m.markPending changed).pending, (run ((m.memoizing true).markPending changed) true).1.Settled x := by
    refine ⟨fun hout x hx => ?_, run_sameOutcome (hsound true).toCoherent halike⟩
    have hend : Alike (run ((m.memoizing true).markPending changed) true).1
        (run ((m.memoizing false).markPending changed) false).1 :=
      ⟨halike.run true false, fun x => (result_eq_result_iff rfl rfl).mp (hout.results x)⟩
    exact hend.settled ((run_settled (hsound false) false fun h => nomatch h).1 x hx)
  exact ⟨hiff, fun ht => hiff.mpr (run_settled (hsound true) true fun _ => ht).1⟩

/-! ### A result that is kept -/

theorem memo_congr {e e' : Entry} (hs : e'.source = e.source)
    (hr : ∀ r ∈ e.references, m'.revision? r = m.revision? r) : m'.memo e' = m.memo e := by
  obtain ⟨hformula, hreferences⟩ := Prod.mk.inj hs
  rw [memo, hformula, hreferences, memo, List.map_congr_left fun r hr' => by rw [hr r hr']]

theorem revision?_congr {r : Reference} (hi : m'.inputRevisions[r]? = m.inputRevisions[r]?)
    (hk : ∀ k, r.calculation? = some k → (m'.entry? k).map (·.revision) = (m.entry? k).map (·.revision)) :
    m'.revision? r = m.revision? r := by
  unfold revision?
  cases hc : r.calculation? with
  | none => exact hi
  | some k => exact hk k hc

/-- A quarter with one calculation. -/
def single (name formula : String) : Model :=
  (new (.consecutive ⟨24300⟩ 3) .standard).after (.addCalculation (.ofFormula 1 name formula))

theorem single_reached {name formula : String} {allowed : Operation → Prop}
    (h : allowed (.addCalculation (.ofFormula 1 name formula))) : Reached allowed (single name formula) :=
  (Reached.new _ _).after h

theorem single_graph (name formula : String) : (single name formula).graph =
    (Dependency.Graph.empty.addNode 1).setPrecedents 1 (Formula.namedCalculations formula.toList) :=
  rfl

theorem single_pending (name formula : String) : 1 ∈ (single name formula).pending := by
  obtain ⟨h, -⟩ := @addCalculation_spec _ (single name formula) (.new (.consecutive ⟨24300⟩ 3) .standard) _ rfl
  exact h.pending.mpr ⟨rfl, .inr .refl⟩

theorem run_single {memoizes : Bool} (ho : m.graph.evaluationOrder.order = [id]) :
    ∃ n, Steps memoizes m.graph.evaluationOrder id m n ∧ (m.run memoizes).1 = { n with pending := ∅ } := by
  unfold run
  dsimp only
  rw [ho]
  exact ⟨_, step_spec memoizes m.graph.evaluationOrder ⟨m, _⟩ id, rfl⟩

/-- The memo of the calculation after a recompute: it fits, unless the calculation names itself. -/
theorem single_recomputed {name formula : String} {m : Model} (hm : (single name formula).after (.recompute []) = m)
    (horder : (single name formula).graph.evaluationOrder = ⟨[⟨[1], false⟩]⟩)
    (hnamed : 1 ∉ Formula.namedCalculations formula.toList) :
    SameFormulas (single name formula) m ∧ m.series = (single name formula).series ∧
      m.graph = (single name formula).graph ∧ m.inputRevisions = (single name formula).inputRevisions ∧
      ∃ e, m.entry? 1 = some e ∧ e.source = (formula, Formula.namedReferences formula.toList) ∧
        e.memo = some (m.memo e) ∧ Agrees e.result (evaluateText (single name formula).context formula.toList) := by
  have horder : ((single name formula).markPending []).graph.evaluationOrder = ⟨[⟨[1], false⟩]⟩ := horder
  have hpending : 1 ∈ ((single name formula).markPending []).pending := mem_markPending.mpr (.inl (single_pending ..))
  have hentry : entry? ((single name formula).markPending []) 1 = some (Entry.new 3 (.ofFormula 1 name formula)) := rfl
  obtain ⟨n, hn, hrun⟩ := @run_single ((single name formula).markPending []) 1 true (by rw [horder]; rfl)
  have hs := hn.sameInputs
  have hf : SameFormulas n { n with pending := ∅ } := .of_entries rfl rfl
  obtain rfl : { n with pending := ∅ } = m := hrun.symm.trans ((after_recompute rfl).symm.trans hm)
  refine ⟨((SameFormulas.markPending _ _).trans hs.toSameFormulas).trans hf, hs.series, hs.graph, hs.inputRevisions, ?_⟩
  cases hn with
  | skipped h => exact absurd hpending (h rfl)
  | circular _ hc =>
    rw [horder] at hc
    cases hc
  | reused _ _ he _ hmemo =>
    cases hentry.symm.trans he
    cases hmemo
  | evaluated _ _ he _ h =>
    obtain ⟨e₀, e', he₀, he', hstores⟩ := h.here
    cases hentry.symm.trans he
    cases hentry.symm.trans he₀
    refine ⟨e', he', hstores.source, hstores.memo_eq.trans (congrArg some (memo_congr hstores.source fun r hr => ?_).symm),
      hstores.agrees⟩
    -- What is stored has a new revision at most, and the calculation does not read its own.
    refine revision?_congr (by rw [hs.inputRevisions]) fun k hk => congrArg _ (h.others ?_)
    rintro rfl
    exact hnamed (Formula.mem_namedCalculations.mpr ⟨r, hr, hk⟩)

theorem step_kept {e : Entry} (he : p.model.entry? id = some e) (hp : id ∈ p.model.pending) (hc : o.cycleOf? id = none)
    (hmemo : e.memo = some (p.model.memo e)) :
    (p.step true o id).model = p.model ∧ (p.step true o id).stats.evaluated = p.stats.evaluated ∧
      (p.step true o id).stats.reused = p.stats.reused + 1 := by
  unfold Progress.step
  rw [he, Std.TreeSet.contains_iff_mem.mpr hp, hc]
  simp [Progress.update, hmemo, RecomputeStats.countError]

theorem step_new {memoizes : Bool} {e : Entry} (he : p.model.entry? id = some e) (hp : id ∈ p.model.pending)
    (hc : o.cycleOf? id = none) (hmemo : e.memo = none) :
    (p.step memoizes o id).stats.evaluated = p.stats.evaluated + 1 ∧
      (p.step memoizes o id).stats.reused = p.stats.reused := by
  unfold Progress.step
  rw [he, Std.TreeSet.contains_iff_mem.mpr hp, hc]
  simp [Progress.update, hmemo, RecomputeStats.countError]

/-- A calculation that was recomputed, and one that was added afterwards and reads it. -/
def extended : Model :=
  ((single "Days" "T.DiM").after (.recompute [])).after (.addCalculation (.ofFormula 2 "Total" "CUMSUM(R1)"))

theorem extended_reached {allowed : Operation → Prop} (h : ∀ c, allowed (.addCalculation c))
    (h' : allowed (.recompute [])) : Reached allowed extended :=
  ((single_reached (h _)).after h').after (h _)

/-- The old calculation still has its memo, and the new one has none. -/
theorem extended_entries : extended.graph.evaluationOrder = ⟨[⟨[1], false⟩, ⟨[2], false⟩]⟩ ∧ 2 ∈ extended.pending ∧
    (∃ e, extended.entry? 1 = some e ∧ e.memo = some (extended.memo e)) ∧
    ∃ e, extended.entry? 2 = some e ∧ e.memo = none := by
  have hdays : Formula.namedCalculations "T.DiM".toList = [] := by cbv
  have htotal : Formula.namedCalculations "CUMSUM(R1)".toList = [1] := by cbv
  have hgraph := single_graph "Days" "T.DiM"
  rw [hdays] at hgraph
  rw [extended]
  generalize hm : (single "Days" "T.DiM").after (.recompute []) = m
  obtain ⟨hsame, -, hm', -, e, he, hsource, hmemo, -⟩ := single_recomputed hm (by rw [hgraph]; cbv)
    (by rw [hdays]; exact List.not_mem_nil)
  obtain ⟨past, hs⟩ := (show Reached (fun _ => True) m from hm ▸ (single_reached trivial).after trivial).sound
  have hfree : m.contains 2 = false := hsame.contains
  obtain ⟨hadd, hentries, hgraph'⟩ := @after_addCalculation m (.ofFormula 2 "Total" "CUMSUM(R1)") hfree
  obtain ⟨hedited, -⟩ := addCalculation_spec hs.toCoherent hadd
  generalize m.after (.addCalculation (.ofFormula 2 "Total" "CUMSUM(R1)")) = m' at hentries hgraph' hedited
  have hnew := entry?_add_self (by simp [hfree, Calculation.ofFormula]) hentries
  have hold := hedited.others (x := 1) (by decide)
  refine ⟨?_, hedited.pending.mpr ⟨contains_iff.mpr ⟨_, hnew⟩, .inr .refl⟩, ⟨e, hold.trans he, ?_⟩, _, hnew, rfl⟩
  · rw [hgraph', hm', hgraph]
    change Dependency.Graph.evaluationOrder (.setPrecedents _ 2 (Formula.namedCalculations "CUMSUM(R1)".toList)) = _
    rw [htotal]
    cbv
  · rw [hmemo]
    -- The formula names no calculation, so the new one does not matter.
    refine congrArg some (memo_congr rfl fun r hr => revision?_congr (by rw [hedited.inputRevisions]) fun k hk => ?_).symm
    have hreferences : e.references = Formula.namedReferences "T.DiM".toList := congrArg Prod.snd hsource
    have hnamed : k ∈ Formula.namedCalculations "T.DiM".toList :=
      Formula.mem_namedCalculations.mpr ⟨r, hreferences ▸ hr, hk⟩
    exact absurd (hdays ▸ hnamed) List.not_mem_nil

theorem extended_counts (h : 1 ∈ (extended.markPending [1]).pending) :
    (run ((extended.memoizing true).markPending [1]) true).2.evaluated = 1 ∧
      (run ((extended.memoizing true).markPending [1]) true).2.reused = 1 := by
  obtain ⟨horder, hpending, ⟨e, he, hmemo⟩, e', he', hmemo'⟩ := extended_entries
  have hids : ((extended.memoizing true).markPending [1]).graph.evaluationOrder.order = [1, 2] :=
    congrArg Dependency.EvaluationOrder.order horder
  have hcycle (id : CalculationId) : extended.graph.evaluationOrder.cycleOf? id = none := by
    rw [horder]
    rfl
  unfold run
  dsimp only
  rw [hids]
  generalize hp : Progress.mk ((extended.memoizing true).markPending [1]) _ = p
  obtain ⟨hmodel, hevaluated, hreused⟩ := @step_kept 1 p extended.graph.evaluationOrder e (hp ▸ he) (hp ▸ h) (hcycle 1)
    (hp ▸ hmemo)
  generalize hq : p.step true extended.graph.evaluationOrder 1 = q at hmodel hevaluated hreused
  obtain ⟨hevaluated', hreused'⟩ := @step_new 2 q extended.graph.evaluationOrder true e'
    (by rw [hmodel, ← hp]; exact he') (by rw [hmodel, ← hp]; exact mem_markPending.mpr (.inl hpending)) (hcycle 2) hmemo'
  have hzero : p.stats.evaluated = 0 ∧ p.stats.reused = 0 := hp ▸ ⟨rfl, rfl⟩
  change ((p.step true extended.graph.evaluationOrder 1).step true extended.graph.evaluationOrder 2).stats.evaluated = 1 ∧
    ((p.step true extended.graph.evaluationOrder 1).step true extended.graph.evaluationOrder 2).stats.reused = 1
  rw [hq, hevaluated', hevaluated, hzero.1, hreused', hreused, hzero.2]
  exact ⟨rfl, rfl⟩

/-- One run keeps the old calculation and evaluates the new one, the other run evaluates both. -/
theorem recompute_memoized_extended : Reached (fun _ => True) extended ∧
    (∀ id ∈ ([1] : List CalculationId), extended.contains id = true) ∧
    ∃ kept all, (extended.memoizing true).recompute [1] = .ok kept ∧ (extended.memoizing false).recompute [1] = .ok all ∧
      (SameOutcome kept all ↔ ∀ x ∈ (extended.markPending [1]).pending, kept.1.Settled x) ∧
      ((∀ x ∈ (extended.markPending [1]).pending, extended.Told x) → SameOutcome kept all) ∧
      kept.2.evaluated = 1 ∧ kept.2.reused = 1 ∧ SameOutcome kept all := by
  have h := @extended_reached (fun _ => True) (fun _ => trivial) trivial
  obtain ⟨past, hs⟩ := h.sound
  obtain ⟨-, -, ⟨e, he, -⟩, -⟩ := extended_entries
  have hc : ∀ id ∈ ([1] : List CalculationId), extended.contains id = true := by
    intro id hid
    obtain rfl := List.mem_singleton.mp hid
    exact contains_iff.mpr ⟨e, he⟩
  obtain ⟨kept, all, hkept, hall, hiff, htold⟩ := recompute_memoized h hc
  have hdownstream := hs.toCoherent.mem_downstream.mpr ⟨1, List.mem_singleton_self 1, .refl⟩
  have hcounts := extended_counts (mem_markPending.mpr (.inr ⟨hdownstream, contains_iff.mpr ⟨e, he⟩⟩))
  rw [Except.ok.inj ((recompute_memoizing hc true).symm.trans hkept)] at hcounts
  have hquiet := (@extended_reached Operation.SparesCalculations (fun _ => trivial) trivial).fresh.quiet
  exact ⟨h, hc, kept, all, hkept, hall, hiff, htold, hcounts.1, hcounts.2, htold fun x _ => hquiet.told⟩

/-! ### A result that is kept although it is outdated -/

/-- A new binding under the name of a calculation goes unnoticed by all memos. -/
theorem ReboundAt.memo_eq {r : Reference} (h : ReboundAt r m m') (hr : r.calculation?.isSome = true) (e : Entry) :
    m'.memo e = m.memo e := by
  refine memo_congr rfl fun r' _ => ?_
  unfold revision?
  cases hc : r'.calculation? with
  | some id =>
    dsimp only
    rw [entry?_congr h.entries]
  | none =>
    have hne : r ≠ r' := by
      rintro rfl
      rw [hc] at hr
      cases hr
    dsimp only
    rw [h.revisions, Std.TreeMap.getElem?_insert, if_neg (by simpa using hne)]

/-- A quarter with one calculation, which names a calculation that does not exist. -/
def dangling : Model :=
  single "Copy" "R9"

theorem dangling_reached : Reached (fun _ => True) dangling :=
  single_reached trivial

/-- The model after a recompute, in which the calculation has failed. -/
def failing : Model :=
  dangling.after (.recompute [])

theorem failing_reached : Reached (fun _ => True) failing :=
  dangling_reached.after trivial

theorem evaluateText_nine (c : Formula.Context Float) :
    evaluateText c "R9".toList = .ofExcept c.periods (c.resolve (.calculation 9)) := by
  have hparse : Formula.parse "R9".toList = .ok (.reference (.calculation 9)) := by cbv
  have hblank : Formula.isBlankFormula "R9".toList = false := by cbv
  rw [evaluateText, hparse, hblank]
  rfl

theorem failing_entry : SameFormulas dangling failing ∧ failing.series = dangling.series ∧
    failing.graph.evaluationOrder = ⟨[⟨[1], false⟩]⟩ ∧
    ∃ e, failing.entry? 1 = some e ∧ e.source = ("R9", [.calculation 9]) ∧ e.memo = some (failing.memo e) ∧
      e.result.error ≠ none := by
  have hnamed : Formula.namedCalculations "R9".toList = [9] := by cbv
  have hreferences : Formula.namedReferences "R9".toList = [.calculation 9] := by cbv
  have horder : dangling.graph.evaluationOrder = ⟨[⟨[1], false⟩]⟩ := by
    rw [dangling, single_graph, hnamed]
    cbv
  obtain ⟨hsame, hseries, hgraph, -, e, he, hsource, hmemo, hagrees⟩ := single_recomputed (m := failing) rfl horder
    (by rw [hnamed]; decide)
  refine ⟨hsame, hseries, hgraph ▸ horder, e, he, hreferences ▸ hsource, hmemo, ?_⟩
  have hresolve : (single "Copy" "R9").context.resolve (.calculation 9) = .error (.unknownReference (.calculation 9)) := rfl
  rw [error_of_agrees hagrees, evaluateText_nine, hresolve]
  exact Option.some_ne_none _

/-- The model after a series was bound under the name that the calculation names. -/
def stale : Model := failing.after (.setInput "R9" [1, 2, 4])

theorem stale_reached : Reached (fun _ => True) stale :=
  failing_reached.after trivial

theorem stale_rebound : ReboundAt (.calculation 9) failing stale ∧ stale.graph = failing.graph ∧
    stale.series.get? (.calculation 9) = some [1, 2, 4] := by
  obtain ⟨past, hs⟩ := failing_reached.sound
  obtain ⟨-, hseries, -⟩ := failing_entry
  have hread : readReference "R9" = .ok (.calculation 9) := by cbv
  have hperiods : ([1, 2, 4] : Series Float).length = failing.series.periods := by rw [hseries]; rfl
  have hunbound : failing.series.get? (.calculation 9) = none := by rw [hseries]; rfl
  have hset := setSeries_eq_ok (r := .calculation 9) (by rw [hunbound]; rfl) hperiods
  have happly : Operation.apply failing (.setInput "R9" [1, 2, 4]) = _ :=
    (congrArg (· >>= fun r => failing.setSeries r [1, 2, 4]) hread).trans hset
  have hget := SeriesMap.get?_bind failing.series (.calculation 9) [1, 2, 4] hperiods
  rw [stale, after, happly]
  refine ⟨(inputChanged_spec (s := failing.series.bind _ _ hperiods) hs.toCoherent rfl fun {r} hr => ?_).1, rfl,
    (hget _).trans (if_pos rfl)⟩
  exact (hget r).trans (if_neg (Ne.symm hr))

theorem stale_order : stale.graph.evaluationOrder = ⟨[⟨[1], false⟩]⟩ := by
  obtain ⟨-, hgraph, -⟩ := stale_rebound
  obtain ⟨-, -, horder, -⟩ := failing_entry
  rw [hgraph, horder]

/-- The calculation is pending, and its memo still fits. -/
theorem stale_entry : ∃ e, stale.entry? 1 = some e ∧ e.source = ("R9", [.calculation 9]) ∧ 1 ∈ stale.pending ∧
    e.memo = some (stale.memo e) ∧ e.result.error ≠ none := by
  obtain ⟨-, -, -, e, he, hsource, hmemo, herror⟩ := failing_entry
  obtain ⟨h, -, -⟩ := stale_rebound
  have hentry : stale.entry? 1 = some e := (entry?_congr h.entries).trans he
  have hreferences : e.references = [.calculation 9] := congrArg Prod.snd hsource
  exact ⟨e, hentry, hsource, h.readers hentry (hreferences ▸ List.mem_singleton_self _),
    hmemo.trans (congrArg some (h.memo_eq rfl e).symm), herror⟩

/-- Its formula now finds the series. -/
theorem stale_evaluates : (evaluateText ((stale.memoizing false).markPending []).context "R9".toList).error = none := by
  obtain ⟨h, -, hget⟩ := stale_rebound
  obtain ⟨hsame, -⟩ := failing_entry
  have hresolve : ((stale.memoizing false).markPending []).context.resolve (.calculation 9) = .ok [1, 2, 4] := by
    refine Formula.Context.resolve_eq_ok_iff.mpr ⟨?_, ?_⟩
    · have hmissing : stale.contains 9 = false := (contains_congr (entry?_congr h.entries)).trans hsame.contains
      have hnone : stale.entry? 9 = none := entry?_eq_none (by simp [hmissing])
      change (((stale.entry? 9).map (·.result.values)).or (stale.series.get? (.calculation 9))).or _ = _
      rw [hnone, hget]
      rfl
    · exact (congrArg Timeline.length (h.timeline.trans hsame.timeline)).symm
  rw [evaluateText_nine, hresolve]
  rfl

theorem recompute_memoized_stale : Reached (fun _ => True) stale ∧
    ∃ kept all, (stale.memoizing true).recompute [] = .ok kept ∧ (stale.memoizing false).recompute [] = .ok all ∧
      ¬ SameOutcome kept all := by
  have hnil : ∀ id ∈ ([] : List CalculationId), stale.contains id = true := List.forall_mem_nil _
  refine ⟨stale_reached, _, _, recompute_memoizing hnil true, recompute_memoizing hnil false, fun hout => ?_⟩
  obtain ⟨e, hentry, hsource, hpending, hmemo, herror⟩ := stale_entry
  have hcycle : stale.graph.evaluationOrder.cycleOf? 1 = none := by rw [stale_order]; rfl
  have hrun (memoizes : Bool) := @run_single ((stale.memoizing memoizes).markPending []) 1 memoizes
    (show stale.graph.evaluationOrder.order = [1] by rw [stale_order]; rfl)
  obtain ⟨kept, hkept, hkeptrun⟩ := hrun true
  obtain ⟨all, hall, hallrun⟩ := hrun false
  -- One run trusts the memo, so the error stays; the other one evaluates.
  have hstays : kept.entry? 1 = some e := by
    rw [hkept.eq_of_memo hentry hcycle hmemo]
    exact hentry
  have hsucceeds : ∃ e', all.entry? 1 = some e' ∧ e'.result.error = none := by
    cases hall with
    | skipped h => exact absurd (mem_markPending.mpr (.inl hpending)) (h (contains_iff.mpr ⟨e, hentry⟩))
    | circular _ hc => cases hcycle.symm.trans hc
    | reused _ _ _ hm => cases hm
    | evaluated _ _ he₁ _ hs =>
      obtain ⟨e₀, e', he₀, he', hstores⟩ := hs.here
      cases hentry.symm.trans he₁
      have hformula : e.calculation.formula = "R9" := congrArg Prod.fst hsource
      refine ⟨e', he', ?_⟩
      rw [error_of_agrees hstores.agrees, hformula, stale_evaluates]
  obtain ⟨e', he', hnone⟩ := hsucceeds
  have hresults := (result_eq_result_iff rfl rfl).mp (hout.results 1)
  rw [hkeptrun, hallrun] at hresults
  have hresults : all.latest 1 = kept.latest 1 := hresults
  rw [latest_eq_some he', latest_eq_some hstays] at hresults
  exact herror ((congrArg Evaluation.error (Option.some.inj hresults)).symm.trans hnone)

end Model

end MonthlyModel
