import MonthlyModel.Proofs.Model.Recompute

/-! What operations do.

Whatever the operation, it is one of few things that happens to a model: nothing, an edit of one
calculation, a new binding, a change that nothing is evaluated by, or a run over what is pending then.
What all of these keep is kept by every operation. -/

namespace MonthlyModel.Model

variable {m m' : Model} {o : Operation}

/-- What an operation that is not refused does to a model. -/
inductive Changes (o : Operation) (m : Model) : Model → Prop where
  | nothing : Changes o m m
  | edited {m' : Model} {id : CalculationId} (h : EditedAt id m m') (hc : m'.Coherent) : Changes o m m'
  | rebound {m' : Model} {r : Reference} (h : ReboundAt r m m') (hc : m'.Coherent)
    (hr : o.SparesCalculations → r.family ≠ .calculation) : Changes o m m'
  | relabelled {m' : Model} (h : SameResults m m') (hp : m'.pending = m.pending) (hc : m'.Coherent) :
    Changes o m m'
  | ran {ids : Std.TreeSet CalculationId} (memoizes : Bool) (h : ∀ x ∈ m.pending, x ∈ ids)
    (hc : Coherent { m with pending := ids }) : Changes o m (run { m with pending := ids } memoizes).1

theorem Changes.setSeries {r : Reference} {values : Series Float} (hm : m.Coherent)
    (hr : o.SparesCalculations → r.family ≠ .calculation) (h : m.setSeries r values = .ok m') :
    Changes o m m' := by
  rcases setSeries_spec hm h with rfl | ⟨hb, hc⟩
  · exact .nothing
  · exact .rebound hb hc hr

theorem Changes.removeSeries {r : Reference} (hm : m.Coherent)
    (hr : o.SparesCalculations → r.family ≠ .calculation) : Changes o m (m.removeSeries r).1 := by
  generalize hm' : (m.removeSeries r).1 = m'
  rcases removeSeries_spec hm (Prod.ext hm' rfl) with rfl | ⟨hb, hc⟩
  · exact .nothing
  · exact .rebound hb hc hr

/-- A run over what is pending, and maybe over more. -/
def Reran (m m' : Model) : Prop :=
  ∃ (ids : Std.TreeSet CalculationId) (memoizes : Bool), (∀ x ∈ m.pending, x ∈ ids) ∧
    Coherent { m with pending := ids } ∧ (run { m with pending := ids } memoizes).1 = m'

theorem Reran.changes (h : m.Reran m') : Changes o m m' := by
  obtain ⟨ids, memoizes, hsub, hc, rfl⟩ := h
  exact .ran memoizes hsub hc

theorem reran_recomputeAll {ids : Std.TreeSet CalculationId} (h : ∀ x ∈ m.pending, x ∈ ids)
    (hc : Coherent { m with pending := ids }) : m.Reran (recomputeAll { m with pending := ids }).1 := by
  have hmem : ∀ {x}, x ∈ ids.insertMany m.ids ↔ x ∈ ids ∨ m.contains x = true := by
    intro x
    rw [Std.TreeSet.mem_insertMany_list, List.contains_iff_mem, contains_iff_mem_ids]
  refine ⟨_, false, fun x hx => hmem.mpr (.inl (h x hx)), hc.withPending (fun x hx => ?_) fun d p hn _ => ?_, rfl⟩
  · exact (hmem.mp hx).elim hc.exist fun hx => hx
  · exact hmem.mpr (.inr hn.contains)

theorem recompute_reran {changed : List CalculationId} {stats : RecomputeStats} (hm : m.Coherent)
    (h : m.recompute changed = .ok (m', stats)) : m.Reran m' := by
  obtain ⟨_, -, h⟩ := bind_eq_ok_iff.mp h
  have h := congrArg Prod.fst (Except.ok.inj h)
  have hmarked := hm.markPending changed
  have hsub : ∀ x ∈ m.pending, x ∈ (m.markPending changed).pending := fun x hx => mem_markPending.mpr (.inl hx)
  dsimp only at h
  split at h
  · exact h ▸ reran_recomputeAll hsub hmarked
  · exact ⟨_, _, hsub, hmarked, h⟩

theorem parse_of_readReference {key : String} {r : Reference} (h : readReference key = .ok r) :
    Reference.parse key = .ok r := by
  unfold readReference at h
  split at h
  · cases h
    assumption
  · cases h

theorem apply_changes (hm : m.Coherent) (h : o.apply m = .ok m') : Changes o m m' := by
  cases o with
  | setInput key values =>
    obtain ⟨r, hr, h⟩ := bind_eq_ok_iff.mp h
    exact .setSeries hm (fun ho => ho r (parse_of_readReference hr)) h
  | setSeries r values => exact .setSeries hm (fun ho => ho) h
  | removeInput key =>
    obtain ⟨p, hp, rfl⟩ := map_eq_ok_iff.mp h
    obtain ⟨r, hr, hp⟩ := bind_eq_ok_iff.mp hp
    obtain rfl := Except.ok.inj hp
    exact .removeSeries hm fun ho => ho r (parse_of_readReference hr)
  | addCalculation c =>
    obtain ⟨he, hc⟩ := addCalculation_spec hm h
    exact .edited he hc
  | updateFormula id formula =>
    obtain ⟨he, hc⟩ := updateFormula_spec hm h
    exact .edited he hc
  | setMeasure id measure =>
    obtain ⟨hr, hp, hc⟩ := setMeasure_spec hm h
    exact .relabelled hr hp hc
  | removeCalculation id =>
    obtain ⟨p, hp, rfl⟩ := map_eq_ok_iff.mp h
    obtain ⟨he, hc⟩ := removeCalculation_spec hm hp
    exact .edited he hc
  | setOptions options =>
    cases h
    have hsame := SameResults.withOptions m options
    exact .relabelled hsame rfl (hsame.coherent hm rfl rfl)
  | recompute changed =>
    obtain ⟨p, hp, rfl⟩ := map_eq_ok_iff.mp h
    exact (recompute_reran hm hp).changes
  | recomputeAll =>
    cases h
    exact (reran_recomputeAll (fun x hx => hx) hm).changes

end MonthlyModel.Model
