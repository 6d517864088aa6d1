import MonthlyModel.Proofs.Model.Memoization

/-! Revisions over a history.

Revisions of a calculation start again at nought when it is removed and added once more, and a reference without
a revision is told apart from others by that. Even so a revision says which result or binding it stands for: the
one past that a history tells has an answer for every revision of every model on the way, those inside of a
recompute among them. -/

namespace MonthlyModel.Model

open Dependency (EvaluationOrder)

variable {m m' s : Model} {h : Past} {o : Operation} {memoizes : Bool}

/-! ### On the way through a history -/

/-- The model after a calculation is brought up to date, if it is pending. -/
def bring (memoizes : Bool) (order : EvaluationOrder) (m : Model) (id : CalculationId) : Model :=
  (Progress.step memoizes order ⟨m, ⟨0, 0, 0, 0, 0⟩⟩ id).model

/-- What a step of a run makes of a model does not depend on what has been counted. -/
theorem step_model (order : EvaluationOrder) (p : Progress) (id : CalculationId) :
    (p.step memoizes order id).model = bring memoizes order p.model id := by
  unfold bring Progress.step
  cases p.model.entry? id with
  | none => rfl
  | some e =>
    dsimp only
    split
    · unfold Progress.update
      cases order.cycleOf? id with
      | some cycle => rfl
      | none =>
        dsimp only
        split <;> rfl
    · rfl

theorem foldl_step_model (order : EvaluationOrder) (ids : List CalculationId) (p : Progress) :
    (ids.foldl (Progress.step memoizes order) p).model = ids.foldl (bring memoizes order) p.model := by
  induction ids generalizing p with
  | nil => rfl
  | cons id ids ih => rw [List.foldl_cons, List.foldl_cons, ih, step_model]

/-- The models that a run passes through. -/
def passed (m : Model) (memoizes : Bool) : List Model :=
  m.graph.evaluationOrder.order.scanl (bring memoizes m.graph.evaluationOrder) m

/-- A run ends with the last model that it passes through, in which nothing is left pending. -/
theorem run_model (m : Model) (memoizes : Bool) : (m.run memoizes).1 =
    { m.graph.evaluationOrder.order.foldl (bring memoizes m.graph.evaluationOrder) m with pending := ∅ } := by
  unfold run
  dsimp only
  rw [foldl_step_model]

/-- The run of an operation: the model that it starts with, and whether it uses memos. -/
def runOf? (m : Model) : Operation → Option (Model × Bool)
  | .recompute changed =>
    let marked := m.markPending changed
    if changed.all m.contains then
      if m.options.recomputesAll then some ({ marked with pending := marked.pending.insertMany marked.ids }, false)
      else some (marked, m.options.memoizes)
    else none
  | .recomputeAll => some ({ m with pending := m.pending.insertMany m.ids }, false)
  | _ => none

/-- The models inside of an operation, which only a recompute has. -/
def within (m : Model) (o : Operation) : List Model :=
  match m.runOf? o with
  | some (start, memoizes) => start.passed memoizes
  | none => []

/-- The models that operations pass through. -/
def moments (m : Model) : List Operation → List Model
  | [] => [m]
  | o :: ops => m :: (m.within o ++ (m.after o).moments ops)

theorem self_mem_moments (m : Model) (ops : List Operation) : m ∈ m.moments ops := by
  cases ops <;> simp [moments]

theorem mem_moments_cons {ops : List Operation} (hm : m' ∈ (m.after o).moments ops) : m' ∈ m.moments (o :: ops) :=
  List.mem_cons_of_mem _ (List.mem_append_right _ hm)

theorem after_of_runOf? (hrun : m.runOf? o = some (s, memoizes)) :
    m.after o = (s.run memoizes).1 ∧ ∃ ids, s = { m with pending := ids } := by
  cases o with
  | recompute changed =>
    unfold runOf? at hrun
    dsimp only at hrun
    split at hrun
    · next hall =>
      have hc : ∀ id ∈ changed, m.contains id = true := List.all_eq_true.mp hall
      have hafter : m.after (.recompute changed) =
          (if m.options.recomputesAll then (m.markPending changed).recomputeAll
            else (m.markPending changed).run m.options.memoizes).1 := by
        refine after_of_ok ?_
        rw [Operation.apply, recompute_eq hc]
        rfl
      rw [hafter]
      split at hrun
      · next hrecomputes =>
        obtain ⟨rfl, rfl⟩ := Prod.mk.inj (Option.some.inj hrun)
        rw [if_pos hrecomputes]
        exact ⟨rfl, _, rfl⟩
      · next hrecomputes =>
        obtain ⟨rfl, rfl⟩ := Prod.mk.inj (Option.some.inj hrun)
        rw [if_neg hrecomputes]
        exact ⟨rfl, _, rfl⟩
    · cases hrun
  | recomputeAll =>
    obtain ⟨rfl, rfl⟩ := Prod.mk.inj (Option.some.inj hrun)
    exact ⟨rfl, _, rfl⟩
  | _ => cases hrun

/-! ### Calculations that come and go -/

theorem contains_after_removeCalculation (m : Model) (id : CalculationId) :
    (m.after (.removeCalculation id)).contains id = false := by
  cases he : m.entry id with
  | error error =>
    have hrefused : Operation.apply m (.removeCalculation id) = .error error := by
      rw [Operation.apply, removeCalculation, he]
      rfl
    rw [after_of_error hrefused, contains_def]
    cases hfound : m.entry? id with
    | none => rfl
    | some e => exact nomatch he.symm.trans (entry_eq_ok_iff.mpr hfound)
  | ok e =>
    obtain ⟨m', happly, hentries⟩ : ∃ m', Operation.apply m (.removeCalculation id) = .ok m' ∧
        m'.entries = m.entries.filter (·.id != id) := by
      rw [Operation.apply, removeCalculation, he]
      exact ⟨_, rfl, Roster.entries_remove⟩
    rw [after_of_ok happly, contains_def, entry?_filter hentries, if_pos rfl]
    rfl

theorem entry?_after_addCalculation {c : Calculation} (hc : m.contains c.id = false) :
    entry? (m.after (.addCalculation c)) c.id = some (Entry.new m.periods c) := by
  have hc : ¬ m.contains c.id = true := by simp [hc]
  rw [after_of_ok (o := .addCalculation c) (dif_neg hc)]
  exact entry?_add_self hc rfl

/-! ### One past for a history -/

namespace Remembers

theorem extend {h' : Past} (hr : m.Remembers h) (e : h.Extends h' m.clock) : m.Remembers h' where
  results he := (e.result (hr.revision_le he)).trans (hr.results he)
  series := (e.series fun _ hk => hr.inputRevision_le hk).trans hr.series
  initial := (e.result (Nat.zero_le _)).trans hr.initial
  revision_le := hr.revision_le
  inputRevision_le := hr.inputRevision_le

theorem withPending (hr : m.Remembers h) (ids : Std.TreeSet CalculationId) :
    Remembers { m with pending := ids } h :=
  ⟨hr.results, hr.series, hr.initial, hr.revision_le, hr.inputRevision_le⟩

end Remembers

/-- A past of a model is told on: one that says the same of the revisions that there were tells of the models on
    the way to another one, and of that. -/
def Continues (h : Past) (m : Model) (way : List Model) (m' : Model) : Prop :=
  ∃ h', h.Extends h' m.clock ∧ m.clock ≤ m'.clock ∧ m'.Remembers h' ∧ ∀ n ∈ way, n.Remembers h' ∧ n.clock ≤ m'.clock

namespace Continues

theorem refl (hr : m.Remembers h) : Continues h m [] m :=
  ⟨h, .refl h _, Nat.le_refl _, hr, List.forall_mem_nil _⟩

theorem here (hr : m.Remembers h) : Continues h m [m] m :=
  ⟨h, .refl h _, Nat.le_refl _, hr, List.forall_mem_singleton.mpr ⟨hr, Nat.le_refl _⟩⟩

theorem trans {way way' : List Model} {m'' : Model} (hs : Continues h m way m')
    (hs' : ∀ {h₁}, m'.Remembers h₁ → Continues h₁ m' way' m'') : Continues h m (way ++ way') m'' := by
  obtain ⟨h₁, he₁, hclock₁, hr₁, hway₁⟩ := hs
  obtain ⟨h₂, he₂, hclock₂, hr₂, hway₂⟩ := hs' hr₁
  refine ⟨h₂, he₁.trans he₂ hclock₁, Nat.le_trans hclock₁ hclock₂, hr₂, ?_⟩
  refine List.forall_mem_append.mpr ⟨fun n hn => ?_, hway₂⟩
  obtain ⟨hr, hclock⟩ := hway₁ n hn
  have he : h₁.Extends h₂ n.clock := (Past.Extends.refl h₁ _).trans he₂ hclock
  exact ⟨hr.extend he, Nat.le_trans hclock hclock₂⟩

end Continues

theorem StoredAt.continues {id : CalculationId} {memo : Option Memo} {result : Formula.Evaluation Float}
    (hs : StoredAt id memo result m m') (hr : m.Remembers h) : Continues h m [] m' := by
  obtain ⟨h', hr', he⟩ := hr.storedAt hs
  exact ⟨h', he, hs.clock_le, hr', List.forall_mem_nil _⟩

theorem Steps.continues {order : EvaluationOrder} {id : CalculationId} (hs : Steps memoizes order id m m')
    (hr : m.Remembers h) : Continues h m [] m' := by
  cases hs with
  | skipped => exact .refl hr
  | circular _ _ hs => exact hs.continues hr
  | reused => exact .refl hr
  | evaluated _ _ _ _ hs => exact hs.continues hr

theorem continues_scanl (memoizes : Bool) (order : EvaluationOrder) (ids : List CalculationId) (hr : m.Remembers h) :
    Continues h m (ids.scanl (bring memoizes order) m) (ids.foldl (bring memoizes order) m) := by
  induction ids generalizing m h with
  | nil => exact .here hr
  | cons id ids ih =>
    have hstep : Steps memoizes order id m (bring memoizes order m id) := step_spec memoizes order ⟨m, _⟩ id
    rw [List.scanl_cons, List.foldl_cons]
    exact (Continues.here hr).trans fun hr => (hstep.continues hr).trans ih

theorem continues_run (memoizes : Bool) (hr : m.Remembers h) :
    Continues h m (m.passed memoizes) (m.run memoizes).1 := by
  obtain ⟨h', he, hclock, hlast, hway⟩ := continues_scanl memoizes m.graph.evaluationOrder
    m.graph.evaluationOrder.order hr
  rw [run_model]
  exact ⟨h', he, hclock, hlast.withPending ∅, hway⟩

theorem Changes.continues (hs : Changes o m m') (hr : m.Remembers h) : Continues h m [] m' := by
  cases hs with
  | nothing => exact .refl hr
  | edited hs _ => exact ⟨h, .refl h _, Nat.le_of_eq hs.clock.symm, hr.editedAt hs, List.forall_mem_nil _⟩
  | rebound hs _ _ =>
    obtain ⟨h', hr', he⟩ := hr.reboundAt hs
    exact ⟨h', he, hs.clock ▸ Nat.le_succ _, hr', List.forall_mem_nil _⟩
  | relabelled hs _ _ => exact ⟨h, .refl h _, Nat.le_of_eq hs.clock.symm, hr.sameResults hs, List.forall_mem_nil _⟩
  | @ran ids memoizes _ _ =>
    obtain ⟨h', he, hclock, hlast, -⟩ := continues_run memoizes (hr.withPending ids)
    exact ⟨h', he, hclock, hlast, List.forall_mem_nil _⟩

theorem continues_after (hc : m.Coherent) (hr : m.Remembers h) (o : Operation) :
    Continues h m (m.within o) (m.after o) := by
  unfold within
  cases hrun : m.runOf? o with
  | some start =>
    obtain ⟨s, memoizes⟩ := start
    obtain ⟨hafter, ids, rfl⟩ := after_of_runOf? hrun
    rw [hafter]
    exact continues_run memoizes (hr.withPending ids)
  | none =>
    -- A refused recompute is among these, with nothing inside of it.
    cases happly : o.apply m with
    | ok m' =>
      rw [after_of_ok happly]
      exact (apply_changes hc happly).continues hr
    | error e =>
      rw [after_of_error happly]
      exact .refl hr

theorem continues_moments (hreached : Reached (fun _ => True) m) (hr : m.Remembers h) (ops : List Operation) :
    Continues h m (m.moments ops) (ops.foldl after m) := by
  induction ops generalizing m h with
  | nil => exact .here hr
  | cons o ops ih =>
    obtain ⟨past, hsound⟩ := hreached.sound
    exact (Continues.here hr).trans fun hr =>
      (continues_after hsound.toCoherent hr o).trans fun hr => ih (hreached.after trivial) hr

/-- At any two moments of a history, those inside of a recompute among them, a calculation with the same revision
    has the same result, and a reference with the same revision, or without one at both, the same binding. No
    revision is ahead of the clock. -/
theorem same_of_revision_eq (hm : Reached (fun _ => True) m) (ops : List Operation) {m₁ m₂ : Model}
    (h₁ : m₁ ∈ m.moments ops) (h₂ : m₂ ∈ m.moments ops) :
    (∀ id e₁ e₂, m₁.entry? id = some e₁ → m₂.entry? id = some e₂ → e₁.revision = e₂.revision →
      e₁.result = e₂.result) ∧
    (∀ r : Reference, m₁.inputRevisions[r]? = m₂.inputRevisions[r]? → m₁.series.get? r = m₂.series.get? r) ∧
    (∀ id e, m₁.entry? id = some e → e.revision ≤ m₁.clock) ∧
    ∀ (r : Reference) n, m₁.inputRevisions[r]? = some n → n ≤ m₁.clock := by
  obtain ⟨past, hsound⟩ := hm.sound
  obtain ⟨past', -, -, -, hmoments⟩ := continues_moments hm hsound.toRemembers ops
  have hr₁ : m₁.Remembers past' := (hmoments m₁ h₁).1
  have hr₂ : m₂.Remembers past' := (hmoments m₂ h₂).1
  refine ⟨fun id e₁ e₂ he₁ he₂ hrevision => ?_, fun r hrevision => ?_, fun _ _ => hr₁.revision_le,
    fun _ _ => hr₁.inputRevision_le⟩
  · rw [← hr₁.results he₁, ← hr₂.results he₂, hrevision]
  · rw [← hr₁.series, ← hr₂.series, hrevision]

/-- A calculation that fails at a recompute, is removed and is added again has the revision and the result that
    it had at first. -/
theorem same_of_revision_eq_readded :
    let m := Model.new (.consecutive ⟨24300⟩ 3) .standard
    let c := Calculation.ofFormula 1 "Loop" "R1"
    let ops : List Operation := [.addCalculation c, .recomputeAll, .removeCalculation c.id, .addCalculation c]
    let added := m.after (.addCalculation c)
    let removed := (added.after .recomputeAll).after (.removeCalculation c.id)
    let again := removed.after (.addCalculation c)
    Reached (fun _ => True) m ∧ added ∈ m.moments ops ∧ again ∈ m.moments ops ∧ removed.contains c.id = false ∧
      ∃ e₁ e₂, added.entry? c.id = some e₁ ∧ again.entry? c.id = some e₂ ∧ e₁.revision = e₂.revision ∧
        e₁.result = e₂.result := by
  intro m c ops added removed again
  have hm : Reached (fun _ => True) m := .new _ _
  have hadded : added ∈ m.moments ops := mem_moments_cons (self_mem_moments _ _)
  have hagain : again ∈ m.moments ops :=
    mem_moments_cons (mem_moments_cons (mem_moments_cons (mem_moments_cons (self_mem_moments _ _))))
  have hgone : removed.contains c.id = false := contains_after_removeCalculation (added.after .recomputeAll) c.id
  have he₁ : added.entry? c.id = some (Entry.new m.periods c) := entry?_after_addCalculation (m := m) (c := c) rfl
  have he₂ : again.entry? c.id = some (Entry.new removed.periods c) := entry?_after_addCalculation (c := c) hgone
  have hnew (periods : Nat) : (Entry.new periods c).revision = 0 := rfl
  have hrevision : (Entry.new m.periods c).revision = (Entry.new removed.periods c).revision :=
    (hnew _).trans (hnew _).symm
  exact ⟨hm, hadded, hagain, hgone, _, _, he₁, he₂, hrevision,
    (same_of_revision_eq hm ops hadded hagain).1 c.id _ _ he₁ he₂ hrevision⟩

end MonthlyModel.Model
