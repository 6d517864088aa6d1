import MonthlyModel.Proofs.Model.Coherence
import MonthlyModel.Proofs.Model.Operation

/-! What edits do to a model.

Adding, changing and removing a calculation are edits of one calculation: the other ones stay as they
are, and all that reads the edited one becomes pending. Binding and unbinding a series makes all that
reads it pending. -/

namespace MonthlyModel

/-- An entry that has the result of another one, and what is known of it. -/
structure Entry.SameResult (e' e : Entry) : Prop where
  result : e'.result = e.result
  revision : e'.revision = e.revision
  memo : e'.memo = e.memo

namespace Model

open Formula (namedReferences namedCalculations)
open Relation

variable {m m' : Model} {id d p x : CalculationId}

/-! ### Edits of one calculation -/

/-- An edit of one calculation: the others stay, and what reads it becomes pending. -/
structure EditedAt (id : CalculationId) (m m' : Model) : Prop where
  timeline : m'.timeline = m.timeline
  series : m'.series = m.series
  inputRevisions : m'.inputRevisions = m.inputRevisions
  clock : m'.clock = m.clock
  others : ∀ {x}, x ≠ id → m'.entry? x = m.entry? x
  here : ∀ {e'}, m'.entry? id = some e' → e'.SameResult (Entry.new m.periods e'.calculation) ∨
    ∃ e, m.entry? id = some e ∧ e'.SameResult e
  pending : ∀ {x}, x ∈ m'.pending ↔ m'.contains x = true ∧ (x ∈ m.pending ∨ ReflTransGen m'.Names x id)

namespace EditedAt

theorem names (h : EditedAt id m m') (hd : d ≠ id) : m'.Names d p ↔ m.Names d p :=
  names_congr (by rw [h.others hd])

theorem contains (h : EditedAt id m m') (hx : x ≠ id) : m'.contains x = m.contains x :=
  contains_congr (h.others hx)

/-- After an edit an entry has the result of a new one, or of the one that was there. -/
theorem entry_cases (h : EditedAt id m m') {e' : Entry} (he' : m'.entry? x = some e') :
    e'.SameResult (Entry.new m.periods e'.calculation) ∨ ∃ e, m.entry? x = some e ∧ e'.SameResult e := by
  by_cases hx : x = id
  · subst hx
    exact h.here he'
  · exact .inr ⟨e', h.others hx ▸ he', rfl, rfl, rfl⟩

theorem coherent (h : EditedAt id m m') (hm : m.Coherent) (hc : m'.Charted) : m'.Coherent where
  toCharted := hc
  exist hx := (h.pending.mp hx).1
  closed {d p} hn hp := by
    refine h.pending.mpr ⟨hn.contains, ?_⟩
    rcases (h.pending.mp hp).2 with hp | hp
    · by_cases hd : d = id
      · exact .inr (hd ▸ .refl)
      · exact .inl (hm.closed ((h.names hd).mp hn) hp)
    · exact .inr (hp.head hn)

/-- Making a calculation pending, with all that reads it, completes an edit of it. -/
theorem of_markPending (hm : m.Coherent) (hc : m'.Charted) (ht : m'.timeline = m.timeline)
    (hs : m'.series = m.series) (hr : m'.inputRevisions = m.inputRevisions) (hk : m'.clock = m.clock)
    (hp : m'.pending = m.pending) (ho : ∀ {x}, x ≠ id → m'.entry? x = m.entry? x)
    {e' : Entry} (hid : m'.entry? id = some e')
    (hh : e'.SameResult (Entry.new m.periods e'.calculation) ∨ ∃ e, m.entry? id = some e ∧ e'.SameResult e) :
    EditedAt id m (m'.markPending [id]) ∧ (m'.markPending [id]).Coherent := by
  have he : EditedAt id m (m'.markPending [id]) := by
    refine ⟨ht, hs, hr, hk, ho, fun {e} he => ?_, fun {x} => ?_⟩
    · cases hid.symm.trans he
      exact hh
    -- What was pending still exists: the edited calculation does, and the others are as they were.
    · have hex : x ∈ m.pending → m'.contains x = true := by
        intro hx
        by_cases h : x = id
        · exact contains_iff.mpr ⟨e', h ▸ hid⟩
        · exact (contains_congr (ho h)).trans (hm.exist hx)
      rw [mem_markPending, hp, hc.mem_downstream]
      simp only [List.mem_singleton, exists_eq_left, contains_markPending]
      constructor
      · rintro (hx | ⟨hx, hx'⟩)
        · exact ⟨hex hx, .inl hx⟩
        · exact ⟨hx', .inr hx⟩
      · rintro ⟨hx', hx | hx⟩
        · exact .inl hx
        · exact .inr ⟨hx, hx'⟩
  exact ⟨he, he.coherent hm ⟨hc.references, hc.mirrored, hc.nodes, hc.precedents⟩⟩

end EditedAt

/-! ### The three edits -/

/-- A model in which one calculation has another formula, or none if it does not exist any more. -/
theorem Charted.of_edit (id : CalculationId) (hm : m.Charted) (ho : ∀ {x}, x ≠ id → m'.entry? x = m.entry? x)
    (hi : ∀ {e}, m'.entry? id = some e → e.references = namedReferences e.calculation.formula.toList)
    (hg : m'.graph.Mirrored) (hn : ∀ {x}, x ∈ m'.graph.nodes ↔ m'.contains x = true)
    (hp : ∀ {p}, p ∈ m'.graph.precedentsOf id ↔ m'.Names id p)
    (hpo : ∀ {d p}, d ≠ id → (p ∈ m'.graph.precedentsOf d ↔ p ∈ m.graph.precedentsOf d)) : m'.Charted where
  references {x e} he := by
    by_cases hx : x = id
    · exact hi (hx ▸ he)
    · exact hm.references (ho hx ▸ he)
  mirrored := hg
  nodes := hn
  precedents {d p} := by
    by_cases hd : d = id
    · exact hd ▸ hp
    · rw [hpo hd, hm.precedents, names_congr (by rw [ho hd])]

theorem entry?_add_self {c : Calculation} (h : ¬ m.contains c.id = true)
    (hentries : m'.entries = m.entries ++ [Entry.new m.periods c]) :
    m'.entry? c.id = some (Entry.new m.periods c) := by
  rw [entry?_append hentries, entry?_eq_none h]
  exact if_pos rfl

theorem entry?_add_other {c : Calculation} (hentries : m'.entries = m.entries ++ [Entry.new m.periods c])
    (hx : x ≠ c.id) : m'.entry? x = m.entry? x := by
  rw [entry?_append hentries, if_neg (fun he => hx he.symm), Option.or_none]

theorem entry?_update_self {formula : String} {e : Entry} (h : m.entry? id = some e)
    (hentries : m'.entries = (m.modify id (·.withFormula formula)).entries) :
    m'.entry? id = some (e.withFormula formula) := by
  rw [entry?_modify hentries, if_pos rfl, h]
  rfl

theorem entry?_update_other {formula : String}
    (hentries : m'.entries = (m.modify id (·.withFormula formula)).entries) (hx : x ≠ id) :
    m'.entry? x = m.entry? x := by
  rw [entry?_modify hentries, if_neg hx]

theorem charted_add (hm : m.Charted) {c : Calculation} (h : ¬ m.contains c.id = true)
    (hentries : m'.entries = m.entries ++ [Entry.new m.periods c])
    (hgraph : m'.graph = (m.graph.addNode c.id).setPrecedents c.id (namedCalculations c.formula.toList)) :
    m'.Charted := by
  have hnew := entry?_add_self h hentries
  have hother : ∀ {x}, x ≠ c.id → m'.entry? x = m.entry? x := entry?_add_other hentries
  refine Charted.of_edit c.id hm hother ?_ ?_ ?_ ?_ ?_
  · intro e he
    cases hnew.symm.trans he
    rfl
  · rw [hgraph]
    exact (hm.mirrored.addNode _).setPrecedents _ _
  · intro x
    rw [hgraph, Dependency.Graph.setPrecedents_nodes, Dependency.Graph.mem_addNode_nodes, hm.nodes]
    by_cases hx : x = c.id
    · simp [hx, contains_def, hnew]
    · simp [hx, contains_def, hother hx]
  · intro p
    rw [hgraph, Dependency.Graph.mem_setPrecedents_precedentsOf, if_pos rfl, names_iff hnew]
    rfl
  · intro d p hd
    rw [hgraph, Dependency.Graph.mem_setPrecedents_precedentsOf, if_neg hd]
    rfl

theorem charted_update (hm : m.Charted) {formula : String} {e : Entry} (h : m.entry? id = some e)
    (hentries : m'.entries = (m.modify id (·.withFormula formula)).entries)
    (hgraph : m'.graph = m.graph.setPrecedents id (namedCalculations formula.toList)) : m'.Charted := by
  have hnew := entry?_update_self h hentries
  have hother : ∀ {x}, x ≠ id → m'.entry? x = m.entry? x := entry?_update_other hentries
  refine Charted.of_edit id hm hother ?_ ?_ ?_ ?_ ?_
  · intro e' he
    cases hnew.symm.trans he
    rfl
  · rw [hgraph]
    exact hm.mirrored.setPrecedents _ _
  · intro x
    rw [hgraph, Dependency.Graph.setPrecedents_nodes, hm.nodes]
    by_cases hx : x = id
    · simp [hx, contains_def, hnew, h]
    · simp [contains_def, hother hx]
  · intro p
    rw [hgraph, Dependency.Graph.mem_setPrecedents_precedentsOf, if_pos rfl, names_iff hnew]
    rfl
  · intro d p hd
    rw [hgraph, Dependency.Graph.mem_setPrecedents_precedentsOf, if_neg hd]

theorem charted_remove (hm : m.Charted) (he : m'.entries = m.entries.filter (·.id != id)) (hgraph : m'.graph = m.graph.removeNode id) :
    m'.Charted := by
  have hnew : m'.entry? id = none := (entry?_filter he).trans (if_pos rfl)
  have hother : ∀ {x}, x ≠ id → m'.entry? x = m.entry? x := fun hx => (entry?_filter he).trans (if_neg hx)
  refine Charted.of_edit id hm hother ?_ ?_ ?_ ?_ ?_
  · intro e h
    cases hnew.symm.trans h
  · rw [hgraph]
    exact hm.mirrored.removeNode _
  · intro x
    rw [hgraph, Dependency.Graph.mem_removeNode_nodes, hm.nodes]
    by_cases hx : x = id
    · simp [hx, contains_def, hnew]
    · simp [hx, contains_def, hother hx]
  · intro p
    rw [hgraph, Dependency.Graph.mem_removeNode_precedentsOf]
    simp [Names, hnew]
  · intro d p hd
    rw [hgraph, Dependency.Graph.mem_removeNode_precedentsOf]
    simp [hd]

theorem addCalculation_spec (hm : m.Coherent) {c : Calculation} (h : m.addCalculation c = .ok m') :
    EditedAt c.id m m' ∧ m'.Coherent := by
  unfold addCalculation at h
  split at h
  · cases h
  · next hc =>
    obtain rfl := Except.ok.inj h
    exact EditedAt.of_markPending hm (charted_add hm.toCharted hc rfl rfl) rfl rfl rfl rfl rfl
      (fun hx => entry?_add_other rfl hx) (entry?_add_self hc rfl) (.inl ⟨rfl, rfl, rfl⟩)

/-- What a new calculation adds to a model. -/
theorem after_addCalculation {c : Calculation} (h : m.contains c.id = false) :
    m.addCalculation c = .ok (m.after (.addCalculation c)) ∧
      (m.after (.addCalculation c)).entries = m.entries ++ [Entry.new m.periods c] ∧
      (m.after (.addCalculation c)).graph =
        (m.graph.addNode c.id).setPrecedents c.id (namedCalculations c.formula.toList) := by
  have hadd : m.addCalculation c = .ok _ := dif_neg (by simp [h])
  rw [show m.after (.addCalculation c) = _ from after_of_ok hadd]
  exact ⟨hadd, rfl, rfl⟩

theorem updateFormula_spec (hm : m.Coherent) {formula : String} (h : m.updateFormula id formula = .ok m') :
    EditedAt id m m' ∧ m'.Coherent := by
  obtain ⟨e, he, h⟩ := bind_eq_ok_iff.mp h
  have he := entry_eq_ok_iff.mp he
  obtain rfl := Except.ok.inj h
  exact EditedAt.of_markPending hm (charted_update hm.toCharted he rfl rfl) rfl rfl rfl rfl rfl
    (fun hx => entry?_update_other rfl hx) (entry?_update_self he rfl) (.inr ⟨e, he, rfl, rfl, rfl⟩)

theorem removeCalculation_spec (hm : m.Coherent) {c : Calculation}
    (h : m.removeCalculation id = .ok (m', c)) : EditedAt id m m' ∧ m'.Coherent := by
  obtain ⟨e, he, h⟩ := bind_eq_ok_iff.mp h
  obtain ⟨h, -⟩ := Prod.mk.inj (Except.ok.inj h)
  have hentries : m'.entries = m.entries.filter (·.id != id) := by
    rw [← h]
    exact Roster.entries_remove
  have hother : ∀ {x}, x ≠ id → m'.entry? x = m.entry? x := fun hx =>
    (entry?_filter hentries).trans (if_neg hx)
  have hself : m'.entry? id = none := (entry?_filter hentries).trans (if_pos rfl)
  have hedit : EditedAt id m m' := by
    refine ⟨h ▸ rfl, h ▸ rfl, h ▸ rfl, h ▸ rfl, hother, fun he' => (nomatch hself.symm.trans he'),
      fun {x} => ?_⟩
    -- What reads the calculation is looked for before its edges are taken out, and found all the same.
    have hreach : ReflTransGen m.Names x id ↔ ReflTransGen m'.Names x id :=
      Dependency.reflTransGen_congr_off fun d p hd => (names_congr (by rw [hother hd])).symm
    have hpending : x ∈ m'.pending ↔ x ≠ id ∧
        (x ∈ m.pending ∨ x ∈ m.graph.downstream [id] ∧ m'.contains x = true) := by
      rw [← h, Dependency.mem_erase_iff, mem_markPending]
      rfl
    rw [hpending, hm.mem_downstream, ← hreach]
    simp only [List.mem_singleton, exists_eq_left]
    by_cases hx : x = id
    · simp [hx, contains_def, hself]
    · have hex : x ∈ m.pending → m'.contains x = true := fun hp =>
        (contains_congr (hother hx)).trans (hm.exist hp)
      constructor
      · rintro ⟨-, hp | ⟨hp, hc⟩⟩
        · exact ⟨hex hp, .inl hp⟩
        · exact ⟨hc, .inr hp⟩
      · rintro ⟨hc, hp | hp⟩
        · exact ⟨hx, .inl hp⟩
        · exact ⟨hx, .inr ⟨hp, hc⟩⟩
  exact ⟨hedit, hedit.coherent hm (charted_remove hm.toCharted hentries (h ▸ rfl))⟩

/-- Two models with the same calculations, formulas and results. -/
structure SameResults (m m' : Model) : Prop extends SameFormulas m m' where
  series : m'.series = m.series
  inputRevisions : m'.inputRevisions = m.inputRevisions
  clock : m'.clock = m.clock
  results : ∀ {x e'}, m'.entry? x = some e' → ∃ e, m.entry? x = some e ∧ e'.SameResult e

theorem SameResults.map_entry? {α : Type} {f : Entry → α} (h : SameResults m m')
    (hf : ∀ {e e'}, Entry.SameResult e' e → f e' = f e) : (m'.entry? x).map f = (m.entry? x).map f := by
  have hx := h.contains (x := x)
  rw [contains_def, contains_def] at hx
  cases he' : m'.entry? x with
  | none =>
    rw [he', Option.isSome_none] at hx
    rw [Option.isNone_iff_eq_none.mp (Option.isSome_eq_false_iff.mp hx.symm)]
  | some e' =>
    obtain ⟨e, he, hsame⟩ := h.results he'
    rw [he, Option.map_some, Option.map_some, hf hsame]

theorem SameResults.exists_same (h : SameResults m m') {e' : Entry} (he' : m'.entry? x = some e') :
    ∃ e, m.entry? x = some e ∧ e.source = e'.source ∧ e'.SameResult e := by
  obtain ⟨e, he, hsame⟩ := h.results he'
  obtain ⟨e₀, he₀, hsource⟩ := h.exists_entry he'
  cases he.symm.trans he₀
  exact ⟨e, he, hsource, hsame⟩

theorem SameResults.withOptions (m : Model) (options : ModelOptions) : SameResults m { m with options := options } :=
  ⟨.of_entries rfl rfl, rfl, rfl, rfl, fun {_ e'} he => ⟨e', he, rfl, rfl, rfl⟩⟩

/-- Another measure changes nothing of what a calculation is evaluated by, and nothing of what is
    known of it. -/
theorem setMeasure_spec (hm : m.Coherent) {measure : Measure} (h : m.setMeasure id measure = .ok m') :
    SameResults m m' ∧ m'.pending = m.pending ∧ m'.Coherent := by
  obtain ⟨_, -, h⟩ := bind_eq_ok_iff.mp h
  have h := Except.ok.inj h
  have hentries := congrArg Model.entries h.symm
  have hids := ids_modify hentries
  have hentry (x : CalculationId) := entry?_modify hentries x
  have hf : SameFormulas m m' := by
    refine ⟨h ▸ rfl, hids, fun x => ?_⟩
    rw [hentry]
    split
    · next hx =>
      rw [hx, Option.map_map]
      rfl
    · rfl
  refine ⟨⟨hf, h ▸ rfl, h ▸ rfl, h ▸ rfl, fun {x e'} he => ?_⟩, h ▸ rfl, hf.coherent hm (h ▸ rfl) (h ▸ rfl)⟩
  rw [hentry] at he
  split at he
  · next hx =>
    obtain ⟨e, hold, rfl⟩ := Option.map_eq_some_iff.mp he
    exact ⟨e, hx ▸ hold, rfl, rfl, rfl⟩
  · exact ⟨e', he, rfl, rfl, rfl⟩

/-! ### Bound series -/

/-- A calculation reads a reference, itself or through others. -/
def Depends (m : Model) (x : CalculationId) (r : Reference) : Prop :=
  ∃ y e, m.entry? y = some e ∧ r ∈ e.references ∧ ReflTransGen m.Names x y

/-- A reference is bound to another series, or to none: it has a new revision, and what reads it is
    pending. -/
structure ReboundAt (r : Reference) (m m' : Model) : Prop where
  timeline : m'.timeline = m.timeline
  entries : m'.entries = m.entries
  periods : m'.series.periods = m.series.periods
  clock : m'.clock = m.clock + 1
  revisions : m'.inputRevisions = m.inputRevisions.insert r m'.clock
  others : ∀ {r'}, r' ≠ r → m'.series.get? r' = m.series.get? r'
  pending : ∀ {x}, x ∈ m.pending → x ∈ m'.pending
  readers : ∀ {x e}, m'.entry? x = some e → r ∈ e.references → x ∈ m'.pending
  depends : ∀ {x}, x ∈ m'.pending → x ∈ m.pending ∨ m.Depends x r

theorem inputChanged_spec {s : SeriesMap Float} (hm : m.Coherent) {r : Reference}
    (hperiods : s.periods = m.series.periods) (hs : ∀ {r'}, r' ≠ r → s.get? r' = m.series.get? r') :
    ReboundAt r m ({ m with series := s }.inputChanged r) ∧ ({ m with series := s }.inputChanged r).Coherent := by
  unfold inputChanged
  have hc : Coherent { m with
      series := s, clock := m.clock + 1, inputRevisions := m.inputRevisions.insert r (m.clock + 1) } :=
    SameFormulas.coherent (m := m) (.of_entries rfl rfl) hm rfl rfl
  refine ⟨⟨rfl, rfl, hperiods, rfl, rfl, hs, fun hx => mem_markPending.mpr (.inl hx), fun {x e} he hr => ?_,
    fun {x} hx => ?_⟩, hc.markPending _⟩
  · have he : m.entry? x = some e := he
    refine mem_markPending.mpr (.inr ⟨hc.mem_downstream.mpr ⟨x, ?_, .refl⟩, contains_iff.mpr ⟨e, he⟩⟩)
    exact List.mem_map.mpr ⟨e, List.mem_filter.mpr ⟨mem_of_found he, List.contains_iff_mem.mpr hr⟩, id_of_found he⟩
  · refine (mem_markPending.mp hx).imp_right fun ⟨hdown, _⟩ => ?_
    obtain ⟨y, hy, hreach⟩ := hc.mem_downstream.mp hdown
    obtain ⟨e, he, rfl⟩ := List.mem_map.mp hy
    obtain ⟨hmem, href⟩ := List.mem_filter.mp he
    exact ⟨e.id, e, entry?_of_mem hmem, List.contains_iff_mem.mp href, hreach⟩

/-- A series of the right length that does not compare equal to what is bound is bound in its place. -/
theorem setSeries_eq_ok {r : Reference} {values : Series Float}
    (h : (m.series.get? r).any (sameSeries · values) = false) (hl : values.length = m.series.periods) :
    m.setSeries r values = .ok (inputChanged { m with series := m.series.bind r values hl } r) := by
  rw [setSeries, h, if_neg Bool.false_ne_true, SeriesMap.insert, dif_pos hl]

theorem exists_setSeries (hm : m.Coherent) {r : Reference} {values : Series Float}
    (h : (m.series.get? r).any (sameSeries · values) = false) (hl : values.length = m.series.periods) :
    ∃ m', m.setSeries r values = .ok m' ∧ ReboundAt r m m' ∧ m'.Coherent ∧ m'.series.get? r = some values := by
  have hget := SeriesMap.get?_bind m.series r values hl
  obtain ⟨hr, hc⟩ := inputChanged_spec (s := m.series.bind r values hl) hm rfl fun hr =>
    (hget _).trans (if_neg (Ne.symm hr))
  exact ⟨_, setSeries_eq_ok h hl, hr, hc, (hget r).trans (if_pos rfl)⟩

theorem setSeries_spec (hm : m.Coherent) {r : Reference} {values : Series Float}
    (h : m.setSeries r values = .ok m') : m' = m ∨ ReboundAt r m m' ∧ m'.Coherent := by
  unfold setSeries at h
  split at h
  · exact .inl (Except.ok.inj h).symm
  · split at h
    · next s hs =>
      obtain rfl := Except.ok.inj h
      unfold SeriesMap.insert at hs
      split at hs
      · obtain rfl := Except.ok.inj hs
        refine .inr (inputChanged_spec hm rfl fun hr => ?_)
        rw [SeriesMap.get?_bind, if_neg (Ne.symm hr)]
      · cases hs
    · cases h

theorem removeSeries_spec (hm : m.Coherent) {r : Reference} {values : Option (Series Float)}
    (h : m.removeSeries r = (m', values)) : m' = m ∨ ReboundAt r m m' ∧ m'.Coherent := by
  unfold removeSeries at h
  split at h
  · obtain ⟨rfl, -⟩ := Prod.mk.inj h
    refine .inr (inputChanged_spec hm rfl fun hr => ?_)
    rw [SeriesMap.get?_erase, if_neg (Ne.symm hr)]
  · exact .inl (Prod.mk.inj h).1.symm

end Model

end MonthlyModel
