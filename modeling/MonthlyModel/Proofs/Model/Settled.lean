import MonthlyModel.Proofs.Model.Memory

/-! Results that are up to date.

A calculation is settled if it has the result that belongs to it: an error if it reads itself, and
otherwise what its formula has for a value over the bound series and the results of the others. Edits
leave settled what does not read what they change, and a run settles all calculations. -/

namespace MonthlyModel.Model

open Formula (Evaluation evaluateText namedReferences namedCalculations)
open Relation

/-- A calculation has the result that belongs to it. -/
def Settled (m : Model) (id : CalculationId) : Prop :=
  ∀ e, m.entry? id = some e →
    (TransGen m.Reads id id → ∃ cycle, e.result = .failed m.periods (.circular cycle)) ∧
    (¬ TransGen m.Reads id id → Agrees e.result (evaluateText m.context e.calculation.formula.toList))

variable {m m' m₀ : Model} {id d p x : CalculationId}

/-! ### What results depend on -/

theorem bound?_of_results {r : Reference} (hs : m'.series.get? r = m.series.get? r)
    (hk : ∀ k, r.calculation? = some k → m'.context.results k = m.context.results k) :
    m'.context.bound? r = m.context.bound? r := by
  have hbound : ∀ m : Model, m.context.bound? r = (r.calculation?.bind m.context.results).or (m.series.get? r) :=
    fun _ => rfl
  rw [hbound, hbound, hs]
  cases h : r.calculation? with
  | none => rfl
  | some k => rw [Option.bind_some, Option.bind_some, hk k h]

theorem results_eq (m : Model) (k : CalculationId) : m.context.results k = (m.latest k).map (·.values) := by
  rw [latest, Option.map_map]
  rfl

theorem bound?_congr {r : Reference} (hs : m'.series.get? r = m.series.get? r)
    (he : ∀ k, r.calculation? = some k → m'.latest k = m.latest k) :
    m'.context.bound? r = m.context.bound? r := by
  refine bound?_of_results hs fun k hk => ?_
  rw [results_eq, results_eq, he k hk]

/-- A calculation stays settled as long as its entry, its cycle and what it reads stay. -/
theorem Settled.congr (hs : m.Settled id) (ht : m'.timeline = m.timeline) (he : ∀ e', m'.entry? id = some e' →
      ∃ e, m.entry? id = some e ∧ e'.calculation.formula = e.calculation.formula ∧ e'.result = e.result)
    (hcycle : TransGen m'.Reads id id ↔ TransGen m.Reads id id)
    (hread : ¬ TransGen m'.Reads id id → ∀ e', m'.entry? id = some e' →
      ∀ r ∈ namedReferences e'.calculation.formula.toList, m'.context.bound? r = m.context.bound? r) :
    m'.Settled id := by
  intro e' he'
  obtain ⟨e, hold, hf, hres⟩ := he e' he'
  obtain ⟨hcyclic, hacyclic⟩ := hs e hold
  refine ⟨fun hc => ?_, fun hc => ?_⟩
  · have hp : m'.periods = m.periods := congrArg Timeline.length ht
    rw [hres, hp]
    exact hcyclic (hcycle.mp hc)
  · have heval : evaluateText m'.context e'.calculation.formula.toList =
        evaluateText m.context e'.calculation.formula.toList :=
      Formula.evaluateText_congr ht (hread hc e' he')
    rw [heval, hres, hf]
    exact hacyclic fun h => hc (hcycle.mpr h)

/-! ### Edits -/

/-- A path stays a path of another relation if its steps do where it can lead. -/
theorem transGen_along {P Q N : CalculationId → CalculationId → Prop}
    (h : ∀ z w, ReflTransGen N x z → P z w → Q z w ∧ N z w) (hp : TransGen P x d) :
    TransGen Q x d ∧ ReflTransGen N x d := by
  induction hp with
  | single hs =>
    obtain ⟨hq, hn⟩ := h _ _ .refl hs
    exact ⟨.single hq, .single hn⟩
  | tail _ hs ih =>
    obtain ⟨hq, hn⟩ := h _ _ ih.2 hs
    exact ⟨ih.1.tail hq, ih.2.tail hn⟩

/-- Where an edited calculation cannot be reached, reading is as before. -/
theorem EditedAt.transGen_reads (h : EditedAt id m m') (hx : ¬ ReflTransGen m'.Names x id) :
    TransGen m'.Reads x d ↔ TransGen m.Reads x d := by
  have hne : ∀ {z}, ReflTransGen m'.Names x z → z ≠ id := by
    rintro z hz rfl
    exact hx hz
  constructor
  · refine fun hp => (transGen_along (N := m'.Names) (fun z w hz hs => ⟨⟨?_, ?_⟩, hs.1⟩) hp).1
    · exact (h.names (hne hz)).mp hs.1
    · rw [← h.contains (hne (hz.tail hs.1))]
      exact hs.2
  · refine fun hp => (transGen_along (N := m'.Names) (fun z w hz hs => ?_) hp).1
    have hn := (h.names (hne hz)).mpr hs.1
    refine ⟨⟨hn, ?_⟩, hn⟩
    rw [h.contains (hne (hz.tail hn))]
    exact hs.2

theorem EditedAt.settled (h : EditedAt id m m') (hx : ¬ ReflTransGen m'.Names x id) (hs : m.Settled x) :
    m'.Settled x := by
  have hid : x ≠ id := fun he => hx (he ▸ .refl)
  refine hs.congr h.timeline (fun e' he' => ⟨e', h.others hid ▸ he', rfl, rfl⟩) (h.transGen_reads hx) ?_
  intro _ e' he' r hr
  refine bound?_congr (by rw [h.series]) fun k hk => congrArg _ (h.others ?_)
  rintro rfl
  exact hx (.single ⟨e', he', Formula.mem_namedCalculations.mpr ⟨r, hr, hk⟩⟩)

theorem ReboundAt.settled {r : Reference} (h : ReboundAt r m m') (hc : m'.Coherent) (hx : x ∉ m'.pending)
    (hs : m.Settled x) : m'.Settled x := by
  have hf : SameFormulas m m' := .of_entries h.timeline h.entries
  have hentry : ∀ k, m'.entry? k = m.entry? k := fun _ => entry?_congr h.entries
  refine hs.congr h.timeline (fun e' he' => ⟨e', hentry x ▸ he', rfl, rfl⟩) (by rw [hf.reads]) ?_
  intro _ e' he' r' hr'
  refine bound?_congr (h.others ?_) fun k _ => congrArg _ (hentry k)
  rintro rfl
  exact hx (h.readers he' ((hc.references he').symm ▸ hr'))

theorem SameResults.settled (h : SameResults m m') (hs : m.Settled x) : m'.Settled x := by
  refine hs.congr h.timeline (fun e' he' => ?_) (by rw [h.reads]) fun _ _ _ r _ =>
    bound?_congr (by rw [h.series]) fun k _ => h.map_entry? fun hsame => hsame.result
  obtain ⟨e, he, hsource, hsame⟩ := h.exists_same he'
  exact ⟨e, he, (congrArg Prod.fst hsource).symm, hsame.result⟩

/-! ### Runs -/

/-- A calculation that failed has zeros for values. -/
def FailsWithZeros (m : Model) : Prop :=
  ∀ {id e error}, m.entry? id = some e → e.result.error = some error → e.result = .failed m.periods error

theorem StoredAt.settled {memo : Option Memo} {result : Evaluation Float} (h : StoredAt id memo result m m')
    (hx : x ≠ id) (hn : m.Names x id → TransGen m.Reads x x) (hs : m.Settled x) : m'.Settled x := by
  refine hs.congr h.timeline (fun e' he' => ⟨e', h.others hx ▸ he', rfl, rfl⟩) (by rw [h.reads]) ?_
  intro hc e' he' r hr
  rw [h.reads] at hc
  refine bound?_congr (by rw [h.series]) fun k hk => congrArg _ (h.others ?_)
  rintro rfl
  exact hc (hn ⟨e', h.others hx ▸ he', Formula.mem_namedCalculations.mpr ⟨r, hr, hk⟩⟩)

/-- A failure is stored as it is: there is only one with its error. -/
theorem StoredAt.result_failed {memo : Option Memo} {error : FormulaError} {e : Entry}
    (h : StoredAt id memo (.failed m.periods error) m m') (hf : m.FailsWithZeros) (he : m'.entry? id = some e) :
    e.result = .failed m.periods error ∧ e.memo = memo := by
  obtain ⟨e₀, e', he₀, he', hstores⟩ := h.here
  cases he'.symm.trans he
  refine ⟨?_, hstores.memo_eq⟩
  generalize m'.clock = clock' at hstores
  cases hstores with
  | kept hsame =>
    have herror : e₀.result.error = some error := by
      simp only [sameResult, Bool.and_eq_true, decide_eq_true_eq] at hsame
      exact hsame.1
    exact (hf he₀ herror : e₀.result = _)
  | changed => rfl

theorem StoredAt.settled_circular {memo : Option Memo} {cycle : List CalculationId}
    (h : StoredAt id memo (.failed m.periods (.circular cycle)) m m') (hf : m.FailsWithZeros)
    (hc : TransGen m.Reads id id) : m'.Settled id := by
  have hp : m'.periods = m.periods := congrArg Timeline.length h.timeline
  intro e he
  rw [h.reads]
  exact ⟨fun _ => ⟨cycle, hp ▸ (h.result_failed hf he).1⟩, fun hn => absurd hc hn⟩

theorem StoredAt.settled_value {memo : Option Memo} {e : Entry} (hid : m.entry? id = some e)
    (h : StoredAt id memo (evaluateText m.context e.calculation.formula.toList) m m')
    (hc : ¬ TransGen m.Reads id id) : m'.Settled id := by
  obtain ⟨e₀, e', he₀, he', hstores⟩ := h.here
  cases hid.symm.trans he₀
  intro e'' he
  cases he'.symm.trans he
  rw [h.reads]
  refine ⟨fun hn => absurd hn hc, fun _ => ?_⟩
  have hsource : e'.calculation.formula = e.calculation.formula := congrArg Prod.fst hstores.source
  have heval : evaluateText m'.context e'.calculation.formula.toList =
      evaluateText m.context e.calculation.formula.toList := by
    rw [hsource]
    refine Formula.evaluateText_congr h.timeline fun r hr => bound?_congr (by rw [h.series]) fun k hk => ?_
    refine congrArg _ (h.others ?_)
    rintro rfl
    refine hc (.single ⟨⟨e, hid, Formula.mem_namedCalculations.mpr ⟨r, hr, hk⟩⟩, contains_iff.mpr ⟨e, hid⟩⟩)
  rw [heval]
  exact hstores.agrees

/-- What is known on the way through all histories. -/
structure Sound (m : Model) (h : Past) : Prop extends m.Coherent, m.Remembers h, m.Memoized h where
  failed : m.FailsWithZeros

theorem error_evaluateText {c : Formula.Context Float} {cs : List Char} {error : FormulaError}
    (h : (evaluateText c cs).error = some error) : evaluateText c cs = .failed c.periods error := by
  unfold evaluateText at h ⊢
  split at h
  · cases h
  · next hb =>
    rw [if_neg hb]
    cases he : Formula.parse cs >>= Formula.evaluate c with
    | error e =>
      rw [he] at h
      cases h
      rfl
    | ok s =>
      rw [he] at h
      cases h

theorem StoredAt.failsWithZeros {memo : Option Memo} {result : Evaluation Float} (h : StoredAt id memo result m m')
    (hf : m.FailsWithZeros) (hr : ∀ {error}, result.error = some error → result = .failed m.periods error) :
    m'.FailsWithZeros := by
  have hp : m'.periods = m.periods := congrArg Timeline.length h.timeline
  intro x e' error he' herror
  rw [hp]
  rcases h.entry_cases he' with ⟨-, e, he, hstores⟩ | ⟨-, he⟩
  · generalize m'.clock = clock' at hstores
    cases hstores with
    | kept => exact (hf he herror : e.result = _)
    | changed => exact hr herror
  · exact hf he herror

theorem Steps.sound {memoizes : Bool} {o : Dependency.EvaluationOrder} {h : Past} (hs : Steps memoizes o id m m')
    (hm : m.Sound h) : ∃ h', m'.Sound h' := by
  cases hs with
  | skipped => exact ⟨h, hm⟩
  | reused => exact ⟨h, hm⟩
  | circular _ _ hs =>
    obtain ⟨h', hr, he⟩ := hm.toRemembers.storedAt hs
    exact ⟨h', hs.keepsCoherent hm.toCoherent, hr, hm.toMemoized.storedAt_none hs he,
      hs.failsWithZeros hm.failed fun h => by cases h; rfl⟩
  | evaluated _ _ hid _ hs =>
    obtain ⟨h', hr, he⟩ := hm.toRemembers.storedAt hs
    exact ⟨h', hs.keepsCoherent hm.toCoherent, hr,
      hm.toMemoized.storedAt hm.toRemembers hm.toCoherent hid hs he,
      hs.failsWithZeros hm.failed error_evaluateText⟩

/-- Every step of a run settles its calculation, if memos are told what it reads. -/
theorem Steps.settles {memoizes : Bool} {h : Past} (hs : Steps memoizes m.graph.evaluationOrder id m m')
    (hm : m.Sound h) (hid : id ∉ m.pending → m.Settled id)
    (ht : memoizes = true → id ∈ m.pending → m.Told id) : m'.Settled id := by
  cases hs with
  | skipped hskip =>
    intro e he
    exact hid (hskip (contains_iff.mpr ⟨e, he⟩)) e he
  | circular _ hc hs =>
    refine hs.settled_circular hm.failed ?_
    rw [hm.reads_eq_edge]
    exact (Dependency.Graph.cycleOf?_eq_some_iff.mp hc).1
  | @reused e hp hc he hmemoizes hmemo =>
    have hn := hm.cycleOf?_eq_none_iff.mp hc
    intro e' he'
    cases he.symm.trans he'
    exact ⟨fun h => absurd h hn, fun _ => hm.toMemoized.agrees hm.toRemembers (ht hmemoizes hp) he hmemo⟩
  | evaluated _ hc he _ hs =>
    have hn := hm.cycleOf?_eq_none_iff.mp hc
    exact hs.settled_value he hn

/-- Every step of a run leaves settled what does not read its calculation, or reads itself. -/
theorem Steps.settled {memoizes : Bool} {o : Dependency.EvaluationOrder} (hs : Steps memoizes o id m m')
    (hx : x ≠ id) (hn : id ∈ m.pending → m.Names x id → TransGen m.Reads x x) (h : m.Settled x) :
    m'.Settled x := by
  cases hs with
  | skipped => exact h
  | reused => exact h
  | circular hp _ hs => exact hs.settled hx (hn hp) h
  | evaluated hp _ _ _ hs => exact hs.settled hx (hn hp) h

theorem foldl_step_sound {memoizes : Bool} {o : Dependency.EvaluationOrder} {h : Past} {p : Progress}
    (hm : p.model.Sound h) (ids : List CalculationId) :
    ∃ h', (ids.foldl (Progress.step memoizes o) p).model.Sound h' := by
  induction ids generalizing h p with
  | nil => exact ⟨h, hm⟩
  | cons id ids ih =>
    obtain ⟨h', hm'⟩ := (step_spec memoizes o p id).sound hm
    exact ih hm'

theorem SameInputs.told (hs : SameInputs m m') (ht : m.Told x) : m'.Told x := by
  intro e' he' r hr k hk
  obtain ⟨e, he, hsource⟩ := hs.exists_entry he'
  have hreferences : e.references = e'.references := congrArg Prod.snd hsource
  rw [hs.contains, hs.inputRevisions]
  exact ht e he r (hreferences ▸ hr) k hk

/-- A property of calculations that bringing one up to date gives it, and leaves to every other one that
    does not read it or reads itself. -/
structure Lasting (memoizes : Bool) (m₀ : Model) (P : Model → CalculationId → Prop) : Prop where
  given : ∀ {m m' id h}, SameInputs m₀ m → m.Sound h → Steps memoizes m.graph.evaluationOrder id m m' →
    (id ∉ m.pending → P m id) → P m' id
  left : ∀ {m m' id x h}, m.Sound h → Steps memoizes m.graph.evaluationOrder id m m' → x ≠ id →
    (id ∈ m.pending → m.Names x id → TransGen m.Reads x x) → P m x → P m' x

/-- On the way through a run, all that has been passed or had a property before has it. -/
structure Running (P : Model → CalculationId → Prop) (m₀ : Model) (done : List CalculationId) (m : Model) : Prop where
  same : SameInputs m₀ m
  sound : ∃ h, m.Sound h
  passed : ∀ x, x ∈ done → x ∈ m₀.pending → P m x
  others : ∀ x, x ∉ m₀.pending → P m₀ x → P m x

variable {P : Model → CalculationId → Prop}

theorem Running.step {memoizes : Bool} {done todo : List CalculationId} (hr : Running P m₀ done m)
    (hP : Lasting memoizes m₀ P) (ho : m₀.graph.evaluationOrder.order = done ++ id :: todo)
    (hs : Steps memoizes m₀.graph.evaluationOrder id m m') : Running P m₀ (done ++ [id]) m' := by
  obtain ⟨h, hm⟩ := hr.sound
  have hpending := hr.same.pending
  rw [← hr.same.graph] at hs ho
  have hgiven (hid : id ∉ m₀.pending → P m id) : P m' id := hP.given hr.same hm hs (hpending ▸ hid)
  refine ⟨hr.same.trans hs.sameInputs, hs.sound hm, fun x hx hp => ?_, fun x hp hx => ?_⟩
  · by_cases hid : x = id
    · subst hid
      exact hgiven fun hn => absurd hp hn
    · have hx : x ∈ done := by simpa [hid] using hx
      refine hP.left hm hs hid (fun hp hn => ?_) (hr.passed x hx ‹_›)
      -- What has been passed and needs the calculation is needed by it.
      have hread : m.Reads x id := ⟨hn, hm.exist hp⟩
      rw [hm.reads_eq_edge] at hread ⊢
      have hpair := Dependency.Graph.pairwise_order m.graph
      rw [ho] at hpair
      have := (List.pairwise_append.mp hpair).2.2 x hx id List.mem_cons_self (.single hread)
      exact TransGen.head' hread this
  · by_cases hid : x = id
    · subst hid
      exact hgiven fun _ => hr.others x hp hx
    · refine hP.left hm hs hid (fun hp' hn => ?_) (hr.others x hp hx)
      exact absurd (hm.closed hn hp') (hpending ▸ hp)

theorem Running.foldl {memoizes : Bool} {done todo : List CalculationId} {p : Progress}
    (hr : Running P m₀ done p.model) (hP : Lasting memoizes m₀ P)
    (ho : m₀.graph.evaluationOrder.order = done ++ todo) :
    Running P m₀ m₀.graph.evaluationOrder.order
      (todo.foldl (Progress.step memoizes m₀.graph.evaluationOrder) p).model := by
  induction todo generalizing done p with
  | nil =>
    rw [ho, List.append_nil]
    exact hr
  | cons id todo ih => exact ih (hr.step hP ho (step_spec ..)) (ho.trans (List.append_cons ..))

/-- What is known of a model does not depend on what waits for a recompute. -/
theorem Sound.withPending {h : Past} (hm : m.Sound h) {ids : Std.TreeSet CalculationId}
    (hc : Coherent { m with pending := ids }) : Sound { m with pending := ids } h where
  toCoherent := hc
  results := hm.results
  series := hm.series
  initial := hm.initial
  revision_le := hm.revision_le
  inputRevision_le := hm.inputRevision_le
  le_clock := hm.le_clock
  sound := hm.sound
  failed := hm.failed

theorem Sound.noPending {h : Past} (hm : m.Sound h) : Sound { m with pending := ∅ } h :=
  hm.withPending <| hm.toCoherent.withPending (fun _ hx => absurd hx Std.TreeSet.not_mem_emptyc)
    fun _ _ _ hx => absurd hx Std.TreeSet.not_mem_emptyc

theorem run_sound {h : Past} (hm : m.Sound h) (memoizes : Bool) : ∃ h', (m.run memoizes).1.Sound h' := by
  obtain ⟨h', hm'⟩ := foldl_step_sound (p := ⟨m, _⟩) hm m.graph.evaluationOrder.order
  exact ⟨h', hm'.noPending⟩

/-- A run gives a lasting property to what is pending, and leaves it to what is not. -/
theorem run_lasting {h : Past} {memoizes : Bool} (hm : m.Sound h) (hP : Lasting memoizes m P) :
    ∃ n, (m.run memoizes).1 = { n with pending := ∅ } ∧ (∀ x ∈ m.pending, P n x) ∧ ∀ x, x ∉ m.pending → P m x → P n x := by
  have hstart : Running P m [] m :=
    ⟨.refl m, ⟨h, hm⟩, fun x hx => absurd hx List.not_mem_nil, fun x _ hx => hx⟩
  unfold run
  dsimp only
  generalize hp : List.foldl _ _ _ = p
  have hend : Running P m m.graph.evaluationOrder.order p.model := hp ▸ Running.foldl hstart hP rfl
  refine ⟨p.model, rfl, fun x hx => ?_, hend.others⟩
  exact hend.passed x (Dependency.Graph.mem_order.mpr (hm.nodes.mpr (hm.exist hx))) hx

theorem lasting_settled {memoizes : Bool} (ht : memoizes = true → ∀ x ∈ m.pending, m.Told x) :
    Lasting memoizes m Settled where
  given hsame hm hs hid := hs.settles hm hid fun hmemoizes hp =>
    hsame.told (ht hmemoizes _ (hsame.pending ▸ hp))
  left _ hs hx hn h := hs.settled hx hn h

/-- A run settles what is pending, if memos are told what that reads, and leaves settled what is not
    pending. -/
theorem run_settled {h : Past} (hm : m.Sound h) (memoizes : Bool)
    (ht : memoizes = true → ∀ x ∈ m.pending, m.Told x) :
    (∀ x ∈ m.pending, (m.run memoizes).1.Settled x) ∧
      ∀ x, x ∉ m.pending → m.Settled x → (m.run memoizes).1.Settled x := by
  obtain ⟨n, hn, hrun⟩ := run_lasting hm (lasting_settled ht)
  rw [hn]
  exact hrun

end MonthlyModel.Model
