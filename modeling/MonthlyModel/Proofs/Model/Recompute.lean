import MonthlyModel.Proofs.Model.Edit

/-! What a recompute does to a model.

Bringing a calculation up to date stores a result, keeps one, or does nothing at all; of the other
calculations nothing changes. A whole run is such steps in the order of evaluation. -/

namespace MonthlyModel

open Formula (Evaluation evaluateText)

/-- A result that stands for another one: it is that one, or compares equal to it. -/
def Agrees (stored result : Evaluation Float) : Prop :=
  stored = result ∨ sameResult stored result = true

/-- How an entry changes when a result is stored in it: an equal one is kept, any other one has a new
    revision. -/
inductive Entry.Stores (clock : Nat) (memo : Option Memo) (result : Evaluation Float) (e : Entry) :
    Nat → Entry → Prop where
  | kept (h : sameResult e.result result = true) : Stores clock memo result e clock { e with memo := memo }
  | changed (h : ¬ sameResult e.result result = true) : Stores clock memo result e (clock + 1)
    { e with result := result, revision := clock + 1, memo := memo }

namespace Entry.Stores

variable {clock clock' : Nat} {memo : Option Memo} {result : Evaluation Float} {e e' : Entry}

theorem agrees (h : Stores clock memo result e clock' e') : Agrees e'.result result := by
  cases h with
  | kept h => exact .inr h
  | changed h => exact .inl rfl

theorem source (h : Stores clock memo result e clock' e') : e'.source = e.source := by
  cases h <;> rfl

theorem memo_eq (h : Stores clock memo result e clock' e') : e'.memo = memo := by
  cases h <;> rfl

theorem clock_le (h : Stores clock memo result e clock' e') : clock ≤ clock' := by
  cases h
  · exact Nat.le_refl _
  · exact Nat.le_succ _

end Entry.Stores

namespace Model

variable {m m' : Model} {id x : CalculationId} {memo : Option Memo} {result : Evaluation Float}

/-! ### Storing a result -/

/-- Two models that differ in results and revisions at most. -/
structure SameInputs (m m' : Model) : Prop extends SameFormulas m m' where
  series : m'.series = m.series
  graph : m'.graph = m.graph
  inputRevisions : m'.inputRevisions = m.inputRevisions
  pending : m'.pending = m.pending

namespace SameInputs

theorem refl (m : Model) : SameInputs m m :=
  ⟨.refl m, rfl, rfl, rfl, rfl⟩

theorem trans {m'' : Model} (h : SameInputs m m') (h' : SameInputs m' m'') : SameInputs m m'' :=
  ⟨h.toSameFormulas.trans h'.toSameFormulas, h'.series.trans h.series, h'.graph.trans h.graph,
    h'.inputRevisions.trans h.inputRevisions, h'.pending.trans h.pending⟩

theorem keepsCoherent (h : SameInputs m m') (hm : m.Coherent) : m'.Coherent :=
  h.coherent hm h.graph h.pending

end SameInputs

/-- A result is stored for a calculation; all else stays. -/
structure StoredAt (id : CalculationId) (memo : Option Memo) (result : Evaluation Float) (m m' : Model) : Prop
    extends SameInputs m m' where
  others : ∀ {x}, x ≠ id → m'.entry? x = m.entry? x
  here : ∃ e e', m.entry? id = some e ∧ m'.entry? id = some e' ∧ e.Stores m.clock memo result m'.clock e'

/-- After a result was stored an entry is the one that it was stored in, or one that stayed. -/
theorem StoredAt.entry_cases (h : StoredAt id memo result m m') {e' : Entry} (he' : m'.entry? x = some e') :
    (x = id ∧ ∃ e, m.entry? x = some e ∧ e.Stores m.clock memo result m'.clock e') ∨
      (x ≠ id ∧ m.entry? x = some e') := by
  by_cases hx : x = id
  · subst hx
    obtain ⟨e, e₀, he, he₀, hstores⟩ := h.here
    cases he₀.symm.trans he'
    exact .inl ⟨rfl, e, he, hstores⟩
  · exact .inr ⟨hx, h.others hx ▸ he'⟩

theorem StoredAt.clock_le (h : StoredAt id memo result m m') : m.clock ≤ m'.clock := by
  obtain ⟨_, _, -, -, hstores⟩ := h.here
  exact hstores.clock_le

/-- Storing changes one entry, and what it changes it to is stored. -/
theorem StoredAt.of_modify {e : Entry} {f : Entry → Entry} (he : m.entry? id = some e)
    {hf : ∀ e, (f e).id = e.id} (hentries : m'.entries = (m.modify id f hf).entries)
    (hsource : ∀ e, (f e).source = e.source) (hstores : e.Stores m.clock memo result m'.clock (f e))
    (ht : m'.timeline = m.timeline) (hs : m'.series = m.series) (hg : m'.graph = m.graph)
    (hr : m'.inputRevisions = m.inputRevisions) (hp : m'.pending = m.pending) :
    StoredAt id memo result m m' where
  timeline := ht
  ids := ids_modify hentries
  source x := by
    rw [entry?_modify hentries]
    split
    · next hx =>
      rw [hx, Option.map_map]
      exact congrArg (Option.map · _) (funext hsource)
    · rfl
  series := hs
  graph := hg
  inputRevisions := hr
  pending := hp
  others hx := by
    rw [entry?_modify hentries, if_neg hx]
  here := by
    refine ⟨e, f e, he, ?_, hstores⟩
    rw [entry?_modify hentries, if_pos rfl, he]
    rfl

theorem store_spec {e : Entry} (he : m.entry? id = some e) : StoredAt id memo result m (m.store id memo result) := by
  unfold store
  rw [he, Option.any_some]
  split
  · next h => exact .of_modify he rfl (fun _ => rfl) (.kept h) rfl rfl rfl rfl rfl
  · next h => exact .of_modify he rfl (fun _ => rfl) (.changed h) rfl rfl rfl rfl rfl

/-! ### Steps of a run -/

/-- What bringing a calculation up to date does: nothing if it is not pending, and otherwise the cycle
    that it is a member of decides, or its memo. -/
inductive Steps (memoizes : Bool) (o : Dependency.EvaluationOrder) (id : CalculationId) (m : Model) :
    Model → Prop where
  | skipped (h : m.contains id = true → id ∉ m.pending) : Steps memoizes o id m m
  | circular {m' : Model} {cycle : List CalculationId} (hp : id ∈ m.pending) (hc : o.cycleOf? id = some cycle)
    (hs : StoredAt id none (.failed m.periods (.circular cycle)) m m') : Steps memoizes o id m m'
  | reused {e : Entry} (hp : id ∈ m.pending) (hc : o.cycleOf? id = none) (he : m.entry? id = some e)
    (hm : memoizes = true) (hmemo : e.memo = some (m.memo e)) : Steps memoizes o id m m
  | evaluated {m' : Model} {e : Entry} (hp : id ∈ m.pending) (hc : o.cycleOf? id = none)
    (he : m.entry? id = some e) (hm : ¬ (memoizes = true ∧ e.memo = some (m.memo e)))
    (hs : StoredAt id (some (m.memo e)) (evaluateText m.context e.calculation.formula.toList) m m') :
    Steps memoizes o id m m'

theorem Steps.sameInputs {memoizes : Bool} {o : Dependency.EvaluationOrder} (h : Steps memoizes o id m m') :
    SameInputs m m' := by
  cases h with
  | skipped => exact .refl m
  | circular _ _ hs => exact hs.toSameInputs
  | reused => exact .refl m
  | evaluated _ _ _ _ hs => exact hs.toSameInputs

theorem Steps.others {memoizes : Bool} {o : Dependency.EvaluationOrder} (h : Steps memoizes o id m m')
    (hx : x ≠ id) : m'.entry? x = m.entry? x := by
  cases h with
  | skipped => rfl
  | circular _ _ hs => exact hs.others hx
  | reused => rfl
  | evaluated _ _ _ _ hs => exact hs.others hx

theorem step_spec (memoizes : Bool) (o : Dependency.EvaluationOrder) (p : Progress) (id : CalculationId) :
    Steps memoizes o id p.model (p.step memoizes o id).model := by
  unfold Progress.step
  cases he : p.model.entry? id with
  | none => exact .skipped fun h => by simp [contains_def, he] at h
  | some e =>
    have hid := id_of_found he
    subst hid
    dsimp only
    split
    · next hp =>
      have hp := Std.TreeSet.contains_iff_mem.mp hp
      cases hc : o.cycleOf? e.id with
      | some cycle => exact .circular hp hc (store_spec he)
      | none =>
        unfold Progress.update
        dsimp only
        split
        · next hm =>
          simp only [Bool.and_eq_true, decide_eq_true_eq] at hm
          exact .reused hp hc he hm.1 hm.2
        · next hm =>
          simp only [Bool.and_eq_true, decide_eq_true_eq] at hm
          exact .evaluated hp hc he hm (store_spec he)
    · next hp => exact .skipped fun _ h => hp (Std.TreeSet.contains_iff_mem.mpr h)

/-! ### Runs -/

theorem foldl_step_sameInputs (memoizes : Bool) (o : Dependency.EvaluationOrder) (ids : List CalculationId)
    (p : Progress) : SameInputs p.model (ids.foldl (Progress.step memoizes o) p).model := by
  induction ids generalizing p with
  | nil => exact .refl _
  | cons id ids ih => exact (step_spec memoizes o p id).sameInputs.trans (ih _)

/-- A run changes no formula. -/
theorem run_sameFormulas (m : Model) (memoizes : Bool) : SameFormulas m (m.run memoizes).1 := by
  have h := foldl_step_sameInputs memoizes m.graph.evaluationOrder m.graph.evaluationOrder.order
  exact ⟨(h _).timeline, (h _).ids, (h _).source⟩

/-- A recompute that is given no calculations runs over what is pending. -/
theorem forM_entry {changed : List CalculationId} (hc : ∀ id ∈ changed, m.contains id = true) :
    changed.forM (fun id => discard (m.entry id)) = .ok ⟨⟩ := by
  induction changed with
  | nil => rfl
  | cons id changed ih =>
    obtain ⟨e, he⟩ := contains_iff.mp (hc id List.mem_cons_self)
    have hentry := entry_eq_ok_iff.mpr he
    change (discard (m.entry id) >>= fun _ => changed.forM _) = _
    rw [hentry]
    exact ih fun x hx => hc x (List.mem_cons_of_mem _ hx)

theorem recompute_eq {changed : List CalculationId} (hc : ∀ id ∈ changed, m.contains id = true) :
    m.recompute changed = .ok (if m.options.recomputesAll then (m.markPending changed).recomputeAll
      else (m.markPending changed).run m.options.memoizes) := by
  rw [recompute, forM_entry hc]
  rfl

theorem after_recompute {memoizes : Bool} (h : m.options = ⟨memoizes, false⟩) :
    m.after (.recompute []) = (run (m.markPending []) memoizes).1 := by
  have hrecompute : m.recompute [] = .ok (run (m.markPending []) memoizes) := by
    rw [recompute_eq (List.forall_mem_nil _), h]
    rfl
  have happly : Operation.apply m (.recompute []) = (m.recompute []).map (·.1) := rfl
  rw [hrecompute] at happly
  exact after_of_ok happly

theorem run_inputRevisions (m : Model) (memoizes : Bool) : (m.run memoizes).1.inputRevisions = m.inputRevisions :=
  (foldl_step_sameInputs memoizes m.graph.evaluationOrder m.graph.evaluationOrder.order _).inputRevisions

theorem recomputeAll_sameFormulas (m : Model) : SameFormulas m m.recomputeAll.1 := by
  have h : SameFormulas m { m with pending := m.pending.insertMany m.ids } := .of_entries rfl rfl
  exact h.trans (run_sameFormulas _ false)

end Model

end MonthlyModel
