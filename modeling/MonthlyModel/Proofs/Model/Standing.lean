import MonthlyModel.Proofs.Double.Matching
import MonthlyModel.Proofs.Model.Content

/-! Recomputing what is up to date.

A calculation stands if what a run would leave of it is there already: the error of its cycle, without a
memo, or a memo of what evaluating it would read now. Edits make pending all that they unsettle, and a
run makes stand what it passes, so all that does not wait for a recompute stands, whatever the history.
A recompute with memos goes over standing calculations without evaluating one. -/

namespace MonthlyModel

open Formula (Evaluation evaluateText)

theorem sameResult_failed (n : Nat) (error : FormulaError) :
    sameResult (.failed n error) (.failed n error) = true := by
  have hzeros : sameSeries (List.replicate n 0) (List.replicate n 0) = true := by
    induction n with
    | zero => rfl
    | succ n ih => exact Bool.and_eq_true_iff.mpr ⟨Double.zero_beq, ih⟩
  simp [sameResult, Evaluation.failed, hzeros]

theorem Roster.modify_eq_self {r : Roster} {id : CalculationId} {f : Entry → Entry} {hf : ∀ e, (f e).id = e.id}
    (h : ∀ e, r.find? id = some e → f e = e) : r.modify id f hf = r := by
  unfold Roster.modify
  split
  · next p hp =>
    have hentries : r.entries.modify p f = r.entries := by
      refine List.ext_getElem? fun i => ?_
      rw [List.getElem?_modify]
      split
      · next hi =>
        subst hi
        cases he : r.entries[p]? with
        | none => rfl
        | some e => exact congrArg some (h e (by rw [Roster.find?, hp, Option.bind_some, he]))
      · simp
    cases r
    simp only [Roster.mk.injEq, and_true]
    exact hentries
  · rfl

namespace Model

open Relation

variable {m m' m₀ : Model} {id x : CalculationId} {memoizes : Bool}

/-- What a run would leave of a calculation is there already. -/
def Stands (m : Model) (id : CalculationId) : Prop :=
  ∀ e, m.entry? id = some e →
    (∀ cycle, m.graph.evaluationOrder.cycleOf? id = some cycle →
      e.result = .failed m.periods (.circular cycle) ∧ e.memo = none) ∧
    (m.graph.evaluationOrder.cycleOf? id = none → e.memo = some (m.memo e))

/-! ### What keeps calculations standing -/

theorem Stands.congr (hs : m.Stands x) (ht : m'.timeline = m.timeline)
    (hc : m'.graph.evaluationOrder.cycleOf? x = m.graph.evaluationOrder.cycleOf? x)
    (he : ∀ e', m'.entry? x = some e' → ∃ e, m.entry? x = some e ∧ e'.source = e.source ∧ e'.result = e.result ∧
      e'.memo = e.memo)
    (hread : m.graph.evaluationOrder.cycleOf? x = none → ∀ e, m.entry? x = some e →
      ∀ r ∈ e.references, m'.revision? r = m.revision? r) : m'.Stands x := by
  intro e' he'
  obtain ⟨e, hold, hsource, hresult, hmemo⟩ := he e' he'
  obtain ⟨hcyclic, hacyclic⟩ := hs e hold
  have hp : m'.periods = m.periods := congrArg Timeline.length ht
  rw [hc, hresult, hmemo, hp]
  refine ⟨hcyclic, fun hn => ?_⟩
  rw [hacyclic hn, memo_congr hsource (hread hn e hold)]

theorem EditedAt.cycleThrough_eq (h : EditedAt id m m') (hx : ¬ ReflTransGen m'.Names x id) :
    m'.cycleThrough x = m.cycleThrough x := by
  have hback {y : CalculationId} (hxy : TransGen m'.Reads x y) : TransGen m'.Reads y x ↔ TransGen m.Reads y x := by
    have hnames : ReflTransGen m'.Names x y := hxy.to_reflTransGen.lift (fun z => z) fun _ _ hr => hr.1
    exact h.transGen_reads fun hy => hx (hnames.trans hy)
  ext y
  constructor
  · rintro ⟨hxy, hyx⟩
    exact ⟨(h.transGen_reads hx).mp hxy, (hback hxy).mp hyx⟩
  · rintro ⟨hxy, hyx⟩
    have hxy := (h.transGen_reads hx).mpr hxy
    exact ⟨hxy, (hback hxy).mpr hyx⟩

theorem EditedAt.stands (h : EditedAt id m m') (hm : m.Coherent) (hm' : m'.Coherent)
    (hs : ∀ x, x ∉ m.pending → m.Stands x) (hx : x ∉ m'.pending) : m'.Stands x := by
  intro e he
  have hcontains : m'.contains x = true := contains_iff.mpr ⟨e, he⟩
  -- What does not become pending does not reach the edited calculation.
  have hreach : ¬ ReflTransGen m'.Names x id := fun hr => hx (h.pending.mpr ⟨hcontains, .inr hr⟩)
  have hold : x ∉ m.pending := fun hp => hx (h.pending.mpr ⟨hcontains, .inl hp⟩)
  have hid : x ≠ id := by
    rintro rfl
    exact hreach .refl
  have hcycle := hm.cycleOf?_congr hm'.toCharted (h.transGen_reads hreach) (h.cycleThrough_eq hreach)
  refine (hs x hold).congr h.timeline hcycle (fun e' he' => ⟨e', h.others hid ▸ he', rfl, rfl, rfl⟩)
    (fun _ e₀ he₀ r hr => revision?_congr (by rw [h.inputRevisions]) fun k hk => ?_) e he
  rw [h.others]
  rintro rfl
  exact hreach (.single (hm'.names_of_mem_references ((h.others hid).trans he₀) hr hk))

theorem ReboundAt.stands {r : Reference} (h : ReboundAt r m m') (hm : m.Coherent) (hm' : m'.Coherent)
    (hs : m.Stands x) (hx : x ∉ m'.pending) : m'.Stands x := by
  have hf : SameFormulas m m' := .of_entries h.timeline h.entries
  have hentry (k : CalculationId) : m'.entry? k = m.entry? k := entry?_congr h.entries
  refine hs.congr h.timeline (hm.cycleOf?_congr_of_reads hm'.toCharted hf.reads)
    (fun e' he' => ⟨e', hentry x ▸ he', rfl, rfl, rfl⟩) fun _ e he r' hr' => revision?_congr ?_ fun k _ => by rw [hentry]
  have hne : r ≠ r' := by
    rintro rfl
    exact hx (h.readers ((hentry x).trans he) hr')
  rw [h.revisions, Std.TreeMap.getElem?_insert, if_neg (by simpa using hne)]

theorem SameResults.stands (h : SameResults m m') (hm : m.Coherent) (hm' : m'.Coherent) (hs : m.Stands x) :
    m'.Stands x := by
  refine hs.congr h.timeline (hm.cycleOf?_congr_of_reads hm'.toCharted h.reads) (fun e' he' => ?_) fun _ _ _ r _ =>
    revision?_congr (by rw [h.inputRevisions]) fun k _ => h.map_entry? fun hsame => hsame.revision
  obtain ⟨e, he, hsource, hsame⟩ := h.exists_same he'
  exact ⟨e, he, hsource.symm, hsame.result, hsame.memo⟩

/-! ### Runs make calculations stand -/

theorem StoredAt.stands {memo : Option Memo} {result : Evaluation Float} (h : StoredAt id memo result m m')
    (hm : m.Coherent) (hx : x ≠ id) (hn : m.Names x id → TransGen m.Reads x x) (hs : m.Stands x) : m'.Stands x := by
  refine hs.congr h.timeline (by rw [h.graph]) (fun e' he' => ⟨e', h.others hx ▸ he', rfl, rfl, rfl⟩)
    fun hc e he r hr => revision?_congr (by rw [h.inputRevisions]) fun k hk => ?_
  rw [h.others]
  rintro rfl
  exact hm.cycleOf?_eq_none_iff.mp hc (hn (hm.names_of_mem_references he hr hk))

theorem StoredAt.stands_circular {cycle : List CalculationId}
    (h : StoredAt id none (.failed m.periods (.circular cycle)) m m') (hf : m.FailsWithZeros)
    (hc : m.graph.evaluationOrder.cycleOf? id = some cycle) : m'.Stands id := by
  have hp : m'.periods = m.periods := congrArg Timeline.length h.timeline
  intro e he
  rw [h.graph, hc, hp]
  refine ⟨fun cycle' hc' => ?_, fun hn => nomatch hn⟩
  cases hc'
  exact h.result_failed hf he

theorem StoredAt.stands_evaluated {result : Evaluation Float} {e : Entry} (hm : m.Coherent)
    (he : m.entry? id = some e) (h : StoredAt id (some (m.memo e)) result m m')
    (hc : m.graph.evaluationOrder.cycleOf? id = none) : m'.Stands id := by
  obtain ⟨e₀, e', he₀, he', hstores⟩ := h.here
  cases he.symm.trans he₀
  -- What is stored has a new revision at most, and no calculation on no cycle reads its own.
  have hmemo : m'.memo e' = m.memo e := by
    refine memo_congr hstores.source fun r hr => revision?_congr (by rw [h.inputRevisions]) fun k hk => ?_
    rw [h.others]
    rintro rfl
    exact hm.cycleOf?_eq_none_iff.mp hc (.single ⟨hm.names_of_mem_references he hr hk, contains_iff.mpr ⟨e, he⟩⟩)
  intro e'' he''
  cases he'.symm.trans he''
  rw [h.graph, hc, hstores.memo_eq, hmemo]
  refine ⟨?_, fun _ => rfl⟩
  rintro _ ⟨⟩

theorem lasting_stands : Lasting memoizes m₀ Stands where
  given {m m' id h} _ hm hs hid := by
    cases hs with
    | skipped hskip => exact fun e he => hid (hskip (contains_iff.mpr ⟨e, he⟩)) e he
    | circular _ hc hs => exact hs.stands_circular hm.failed hc
    | @reused e _ hc he _ hmemo =>
      intro e' he'
      cases he.symm.trans he'
      rw [hc]
      refine ⟨?_, fun _ => hmemo⟩
      rintro _ ⟨⟩
    | evaluated _ hc he _ hs => exact hs.stands_evaluated hm.toCoherent he hc
  left {m m' id x h} hm hs hx hn hstands := by
    cases hs with
    | skipped => exact hstands
    | reused => exact hstands
    | circular hp _ hs => exact hs.stands hm.toCoherent hx (hn hp) hstands
    | evaluated hp _ _ _ hs => exact hs.stands hm.toCoherent hx (hn hp) hstands

theorem Changes.stands {o : Operation} {past : Past} (h : Changes o m m') (hm : m.Sound past)
    (hs : ∀ x, x ∉ m.pending → m.Stands x) (hx : x ∉ m'.pending) : m'.Stands x := by
  cases h with
  | nothing => exact hs x hx
  | edited h hc => exact h.stands hm.toCoherent hc hs hx
  | rebound h hc => exact h.stands hm.toCoherent hc (hs x fun hp => hx (h.pending hp)) hx
  | relabelled h hp hc => exact h.stands hm.toCoherent hc (hs x (hp ▸ hx))
  | @ran ids memoizes hsub hc =>
    obtain ⟨n, hn, hpending, hothers⟩ := run_lasting (hm.withPending hc) (@lasting_stands _ memoizes)
    rw [hn]
    by_cases hx : x ∈ ids
    · exact hpending x hx
    · exact hothers x hx (hs x fun hp => hx (hsub x hp))

/-- Whatever operations led to a model, all that does not wait for a recompute stands. -/
theorem Reached.stands {allowed : Operation → Prop} (h : Reached allowed m) (hx : x ∉ m.pending) : m.Stands x := by
  have hall : (∃ past, m.Sound past) ∧ ∀ x, x ∉ m.pending → m.Stands x := by
    refine h.induct (P := fun m => (∃ past, m.Sound past) ∧ ∀ x, x ∉ m.pending → m.Stands x)
      (fun t o => ⟨sound_start rfl rfl (.new t o), fun x _ e he => ?_⟩) (fun h => ?_) ?_
    · simp [entry?_def, entries, Model.new, Roster.empty] at he
    · obtain ⟨hentries, hr, hc⟩ := coherent_ofSeries h
      refine ⟨sound_start hentries hr hc, fun x _ e he => ?_⟩
      simp [entry?_def, hentries] at he
    · rintro m o m' ⟨⟨past, hm⟩, hs⟩ - h
      have hchanges := apply_changes hm.toCoherent h
      exact ⟨hchanges.sound hm, fun x hx => hchanges.stands hm hs hx⟩
  exact hall.2 x hx

/-! ### Runs over standing calculations -/

theorem modify_eq_self {f : Entry → Entry} {hf : ∀ e, (f e).id = e.id} (h : ∀ e, m.entry? id = some e → f e = e) :
    m.modify id f hf = m := by
  unfold modify
  rw [Roster.modify_eq_self h]

theorem store_eq_self {e : Entry} {memo : Option Memo} {result : Evaluation Float} (he : m.entry? id = some e)
    (hresult : sameResult e.result result = true) (hmemo : e.memo = memo) : m.store id memo result = m := by
  rw [store, he, Option.any_some, if_pos hresult]
  refine modify_eq_self fun e' he' => ?_
  cases he.symm.trans he'
  rw [← hmemo]

theorem step_idle {p : Progress} (h : p.model.Stands id) :
    (p.step true p.model.graph.evaluationOrder id).model = p.model ∧
      (p.step true p.model.graph.evaluationOrder id).stats.evaluated = p.stats.evaluated := by
  unfold Progress.step
  cases he : p.model.entry? id with
  | none => exact ⟨rfl, rfl⟩
  | some e =>
    obtain ⟨hcyclic, hacyclic⟩ := h e he
    dsimp only
    split
    · unfold Progress.update
      cases hc : p.model.graph.evaluationOrder.cycleOf? id with
      | some cycle =>
        obtain ⟨hresult, hmemo⟩ := hcyclic cycle hc
        refine ⟨store_eq_self (id_of_found he ▸ he) ?_ hmemo, rfl⟩
        rw [hresult]
        exact sameResult_failed _ _
      | none => simp [hacyclic hc, RecomputeStats.countError]
    · exact ⟨rfl, rfl⟩

theorem foldl_step_idle (ids : List CalculationId) {p : Progress} (h : ∀ x, p.model.Stands x) :
    (ids.foldl (Progress.step true p.model.graph.evaluationOrder) p).model = p.model ∧
      (ids.foldl (Progress.step true p.model.graph.evaluationOrder) p).stats.evaluated = p.stats.evaluated := by
  induction ids generalizing p with
  | nil => exact ⟨rfl, rfl⟩
  | cons id ids ih =>
    obtain ⟨hmodel, hevaluated⟩ := step_idle (h id)
    have hnext := @ih (p.step true p.model.graph.evaluationOrder id) (by rwa [hmodel])
    rwa [hmodel, hevaluated] at hnext

theorem run_idle (h : ∀ x, m.Stands x) :
    (m.run true).1 = { m with pending := ∅ } ∧ (m.run true).2.evaluated = 0 := by
  unfold run
  dsimp only
  generalize hstart : Progress.mk m _ = p
  obtain ⟨hmodel, hevaluated⟩ := foldl_step_idle m.graph.evaluationOrder.order (p := p) (by rwa [← hstart])
  rw [← hstart] at hmodel hevaluated ⊢
  exact ⟨by rw [hmodel], hevaluated⟩

/-- Once nothing waits for a recompute, all memos are settled: whatever was done before, and under
    whatever options, a recompute with memos evaluates nothing and changes no result, whichever
    calculations it is given. It finds the results of these and of all that reads them again, except
    where a calculation reads itself. -/
theorem recompute_idle (h : Reached (fun _ => True) m) (hp : m.pending.isEmpty = true)
    (hmemoizes : m.options.memoizes = true) (hall : m.options.recomputesAll = false) {changed : List CalculationId}
    (hc : ∀ id ∈ changed, m.contains id = true) :
    ∃ m' stats, m.recompute changed = .ok (m', stats) ∧ stats.evaluated = 0 ∧ (∀ x, m'.result x = m.result x) ∧
      stats.reused =
        {x | m.contains x = true ∧ (∃ s ∈ changed, ReflTransGen m.Names x s) ∧ ¬ TransGen m.Reads x x}.ncard := by
  have hnone (x : CalculationId) : x ∉ m.pending := Std.TreeSet.not_mem_of_isEmpty hp
  have hstands (x : CalculationId) : (m.markPending changed).Stands x := h.stands (hnone x)
  obtain ⟨hmodel, hevaluated⟩ := run_idle hstands
  have hrun : m.recompute changed = .ok ((m.markPending changed).run true) := by
    rw [recompute_eq hc, hall, hmemoizes]
    rfl
  generalize (m.markPending changed).run true = after at hmodel hevaluated hrun
  obtain ⟨m', stats⟩ := after
  refine ⟨m', stats, hrun, hevaluated, fun x => ?_, ?_⟩
  · rw [show m' = _ from hmodel]
    exact (result_eq_result_iff hp rfl).mpr rfl
  -- Nothing was pending, so what is handled reads the list. Off cycles all of it is reused, since nothing is
  -- evaluated.
  · obtain ⟨past, hm⟩ := h.sound
    have hhandled := (hm.toCoherent.handles_of_recompute hrun).handled
    have haffected : m.affected changed = {x | m.contains x = true ∧ ∃ s ∈ changed, ReflTransGen m.Names x s} := by
      simp [affected, hall, hnone]
    have hfinite : (m.affected changed).Finite := m.ids.finite_toSet.subset fun x hx => contains_iff_mem_ids.mp hx.1
    have hsplit : {x | x ∈ m.affected changed ∧ TransGen m.Reads x x}.ncard +
        {x | x ∈ m.affected changed ∧ ¬ TransGen m.Reads x x}.ncard = (m.affected changed).ncard :=
      Set.ncard_inter_add_ncard_sdiff_eq_ncard (m.affected changed) {x | TransGen m.Reads x x} hfinite
    have hreused : {x | m.contains x = true ∧ (∃ s ∈ changed, ReflTransGen m.Names x s) ∧ ¬ TransGen m.Reads x x} =
        {x | x ∈ m.affected changed ∧ ¬ TransGen m.Reads x x} := by
      rw [haffected]
      simp only [Set.mem_ofPred_eq, and_assoc]
    rw [hreused]
    dsimp only at hhandled hevaluated
    omega

/-- A calculation on a cycle and one that reads it, after a recompute that uses no memos. -/
theorem recompute_idle_loop :
    let m := ((((Model.new (.consecutive ⟨24300⟩ 3) ⟨false, false⟩).after
      (.addCalculation (.ofFormula 1 "Loop" "R1"))).after
      (.addCalculation (.ofFormula 2 "Next" "R1 * 2"))).after
      (.recompute [])).after (.setOptions .standard)
    (Reached (fun _ => True) m ∧ m.pending.isEmpty = true ∧ m.options.memoizes = true ∧
      m.options.recomputesAll = false ∧ ∀ id ∈ [1], m.contains id = true) ∧
    ∃ m' stats, m.recompute [1] = .ok (m', stats) ∧ stats.evaluated = 0 ∧ (∀ x, m'.result x = m.result x) ∧
      stats.reused =
        {x | m.contains x = true ∧ (∃ s ∈ [1], ReflTransGen m.Names x s) ∧ ¬ TransGen m.Reads x x}.ncard := by
  intro m
  have h : Reached (fun _ => True) m :=
    ((((Reached.new _ _).after trivial).after trivial).after trivial).after trivial
  have hc : ∀ id ∈ ([1] : List CalculationId), m.contains id = true := by
    intro id hid
    obtain rfl := List.mem_singleton.mp hid
    exact run_contains
  exact ⟨⟨h, rfl, rfl, rfl, hc⟩, recompute_idle h rfl rfl rfl hc⟩

end Model

end MonthlyModel
