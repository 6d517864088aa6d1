import MonthlyModel.Proofs.Model.Loading
import MonthlyModel.Proofs.Model.Memoization

/-! Refused calls leave no trace.

The operations of a model are functions from models to models, so one that refuses has no way to leave
half of its work behind. A program that changes one model in place has: what it changed before it gave
up stays changed. Here are the same operations in place, one change after the other. On every model
that operations lead to they do what the functions do, and where these refuse they have changed nothing. -/

namespace MonthlyModel.InPlace

open Formula (namedCalculations)

/-- What changes a model in place. What was changed stays so if the action fails later. -/
abbrev Action := EStateM ModelError Model

/-- Fails where a function refuses. -/
def check {α : Type} : Except ModelError α → Action α
  | .ok a => pure a
  | .error e => throw e

/-! ### Inputs -/

def inputChanged (r : Reference) : Action Unit := do
  modify fun m => { m with clock := m.clock + 1 }
  modify fun m => { m with inputRevisions := m.inputRevisions.insert r m.clock }
  modify fun m => m.markPending ((m.entries.filter (·.references.contains r)).map (·.id))

def insertSeries (r : Reference) (values : Series Float) : Action Unit := do
  let m ← get
  match m.series.insert r values with
  | .ok series => set { m with series := series }
  | .error e => throw (.length e)

def setSeries (r : Reference) (values : Series Float) : Action Unit := do
  let m ← get
  if (m.series.get? r).any (sameSeries · values) then return
  insertSeries r values
  inputChanged r

def setInput (key : String) (values : Series Float) : Action Unit := do
  setSeries (← check (Model.readReference key)) values

def removeInput (key : String) : Action (Option (Series Float)) := do
  let r ← check (Model.readReference key)
  let m ← get
  match m.series.get? r with
  | some values =>
    set { m with series := m.series.erase r }
    inputChanged r
    return some values
  | none => return none

/-- Binds a series of a text, and counts it if the binding changes. -/
def loadSeries (changed : Nat) (binding : Reference × Series Float) : Action Nat := do
  let m ← get
  if (m.series.get? binding.1).any (sameSeries · binding.2) then return changed
  setSeries binding.1 binding.2
  return changed + 1

def loadInputs (bs : List UInt8) : Action Nat := do
  let m ← get
  match Csv.readInputs .standard m.timeline bs with
  | .error fault => throw (.inputs fault)
  | .ok inputs => inputs.bindings.toList.foldlM loadSeries 0

/-! ### Calculations -/

def entry (id : CalculationId) : Action Entry := do
  check ((← get).entry id)

def addCalculation (c : Calculation) : Action Unit := do
  let m ← get
  if h : m.contains c.id then throw (.duplicate c.id)
  else
    modify fun m => { m with graph := m.graph.addNode c.id }
    modify fun m => { m with graph := m.graph.setPrecedents c.id (namedCalculations c.formula.toList) }
    modify fun m' => { m' with roster := m.roster.add (Entry.new m.periods c) h }
    modify fun m => m.markPending [c.id]

theorem id_withFormula (formula : String) (e : Entry) : (e.withFormula formula).id = e.id := rfl

theorem id_withMeasure (measure : Measure) (e : Entry) :
    Entry.id { e with calculation := { e.calculation with measure := measure } } = e.id := rfl

def updateFormula (id : CalculationId) (formula : String) : Action Unit := do
  let _ ← entry id
  modify fun m => { m with graph := m.graph.setPrecedents id (namedCalculations formula.toList) }
  modify fun m => m.modify id (·.withFormula formula) (id_withFormula formula)
  modify fun m => m.markPending [id]

def setMeasure (id : CalculationId) (measure : Measure) : Action Unit := do
  let _ ← entry id
  modify fun m => m.modify id (fun e => { e with calculation := { e.calculation with measure := measure } })
    (id_withMeasure measure)

def removeCalculation (id : CalculationId) : Action Calculation := do
  let e ← entry id
  modify fun m => { m with roster := m.roster.remove id }
  modify fun m => m.markPending [id]
  modify fun m => { m with pending := m.pending.erase id }
  modify fun m => { m with graph := m.graph.removeNode id }
  return e.calculation

/-! ### Recomputing -/

def run (memoizes : Bool) : Action RecomputeStats := do
  let m ← get
  let o := m.graph.evaluationOrder
  let start : RecomputeStats := ⟨m.entries.length, 0, 0, 0, o.cycles.countP (·.any m.pending.contains)⟩
  let stats ← o.order.foldlM (fun stats id => modifyGet fun m =>
    let p := Model.Progress.step memoizes o ⟨m, stats⟩ id
    (p.stats, p.model)) start
  modify fun m => { m with pending := ∅ }
  return stats

def recomputeAll : Action RecomputeStats := do
  modify fun m => { m with pending := m.pending.insertMany m.ids }
  run false

def recompute (changed : List CalculationId) : Action RecomputeStats := do
  changed.forM fun id => do let _ ← entry id
  modify fun m => m.markPending changed
  let m ← get
  if m.options.recomputesAll then recomputeAll else run m.options.memoizes

/-! ### What the actions do -/

variable {α β : Type} {m : Model}

/-- The end of an action that does what a function does, and nothing if that refuses. -/
def ending (m : Model) : Except ModelError (Model × α) → EStateM.Result ModelError Model α
  | .ok (m', a) => .ok a m'
  | .error e => .error e m

theorem get_bind (f : Model → Action α) : (get >>= f).run m = (f m).run m := rfl

theorem check_run (x : Except ModelError α) : (check x).run m = match x with | .ok a => .ok a m | .error e => .error e m := by
  cases x <;> rfl

theorem entry_bind (id : CalculationId) (f : Entry → Action α) : (entry id >>= f).run m = match m.entry id with
    | .ok e => (f e).run m
    | .error e => .error e m := by
  rw [entry, EStateM.run_bind, get_bind, check_run]
  cases m.entry id <;> rfl

theorem insertSeries_run (r : Reference) (values : Series Float) :
    (insertSeries r values).run m = match m.series.insert r values with
      | .ok series => .ok () { m with series := series }
      | .error e => .error (.length e) m := by
  rw [insertSeries, get_bind]
  cases m.series.insert r values <;> rfl

theorem setSeries_run (r : Reference) (values : Series Float) :
    (setSeries r values).run m = ending m ((m.setSeries r values).map (·, ())) := by
  rw [setSeries, get_bind, Model.setSeries]
  cases (m.series.get? r).any (sameSeries · values) with
  | true => rfl
  | false =>
    change (insertSeries r values >>= fun _ => inputChanged r).run m = _
    rw [EStateM.run_bind, insertSeries_run]
    cases m.series.insert r values with
    | error e => rfl
    | ok series => rfl

theorem setInput_run (key : String) (values : Series Float) :
    (setInput key values).run m = ending m ((m.setInput key values).map (·, ())) := by
  rw [setInput, Model.setInput]
  cases Model.readReference key with
  | error e => rfl
  | ok r => exact setSeries_run r values

theorem removeInput_run (key : String) : (removeInput key).run m = ending m (m.removeInput key) := by
  rw [removeInput, Model.removeInput, EStateM.run_bind, check_run]
  cases Model.readReference key with
  | error e => rfl
  | ok r =>
    change _ = ending m (.ok (m.removeSeries r))
    dsimp only
    rw [get_bind, Model.removeSeries]
    cases m.series.get? r <;> rfl

theorem addCalculation_run (c : Calculation) :
    (addCalculation c).run m = ending m ((m.addCalculation c).map (·, ())) := by
  rw [addCalculation, get_bind, Model.addCalculation]
  split <;> rfl

theorem updateFormula_run (id : CalculationId) (formula : String) :
    (updateFormula id formula).run m = ending m ((m.updateFormula id formula).map (·, ())) := by
  rw [updateFormula, Model.updateFormula, entry_bind]
  cases m.entry id <;> rfl

theorem setMeasure_run (id : CalculationId) (measure : Measure) :
    (setMeasure id measure).run m = ending m ((m.setMeasure id measure).map (·, ())) := by
  rw [setMeasure, Model.setMeasure, entry_bind]
  cases m.entry id <;> rfl

theorem removeCalculation_run (id : CalculationId) :
    (removeCalculation id).run m = ending m (m.removeCalculation id) := by
  rw [removeCalculation, Model.removeCalculation, entry_bind]
  cases m.entry id <;> rfl

/-! ### Recomputing in place -/

theorem foldlM_step_run (memoizes : Bool) (o : Dependency.EvaluationOrder) (ids : List CalculationId)
    (stats : RecomputeStats) : (ids.foldlM (fun stats id => modifyGet fun m =>
      let p := Model.Progress.step memoizes o ⟨m, stats⟩ id
      (p.stats, p.model)) stats : Action RecomputeStats).run m =
      let p := ids.foldl (Model.Progress.step memoizes o) ⟨m, stats⟩
      .ok p.stats p.model := by
  induction ids generalizing m stats with
  | nil => rfl
  | cons id ids ih =>
    rw [List.foldlM_cons]
    exact ih _

theorem run_run (memoizes : Bool) : (run memoizes).run m = .ok (m.run memoizes).2 (m.run memoizes).1 := by
  rw [run, get_bind]
  dsimp only
  rw [EStateM.run_bind, foldlM_step_run]
  rfl

theorem recomputeAll_run : recomputeAll.run m = .ok m.recomputeAll.2 m.recomputeAll.1 :=
  run_run false

theorem forM_entry_run (changed : List CalculationId) :
    (changed.forM fun id => do let _ ← entry id : Action PUnit).run m =
      match changed.forM fun id => discard (m.entry id) with
        | .ok _ => .ok ⟨⟩ m
        | .error e => .error e m := by
  induction changed with
  | nil => rfl
  | cons id changed ih =>
    change ((do let _ ← entry id) >>= fun _ => changed.forM _ : Action PUnit).run m =
      match discard (m.entry id) >>= fun _ => changed.forM _ with | .ok _ => .ok ⟨⟩ m | .error e => .error e m
    rw [EStateM.run_bind, entry_bind]
    cases m.entry id with
    | error e => rfl
    | ok e => exact ih

theorem recompute_run (changed : List CalculationId) :
    (recompute changed).run m = ending m (m.recompute changed) := by
  rw [recompute, EStateM.run_bind, forM_entry_run, Model.recompute]
  cases changed.forM fun id => discard (m.entry id) with
  | error e => rfl
  | ok _ =>
    change (if _ then _ else _ : Action RecomputeStats).run _ = ending m (.ok (if _ then _ else _))
    split
    · exact recomputeAll_run
    · exact run_run _

/-! ### Loading in place -/

theorem loadSeries_run (b : Reference × Series Float) (changed : Nat) :
    (loadSeries changed b).run m = ending m (Model.loadSeries (m, changed) b) := by
  rw [loadSeries, get_bind, Model.loadSeries]
  cases (m.series.get? b.1).any (sameSeries · b.2) with
  | true => rfl
  | false =>
    change (setSeries b.1 b.2 >>= fun _ => pure (changed + 1)).run m =
      ending m (m.setSeries b.1 b.2 >>= fun m' => pure (m', changed + 1))
    rw [EStateM.run_bind, setSeries_run]
    cases m.setSeries b.1 b.2 <;> rfl

theorem foldlM_loadSeries_run {bindings : List (Reference × Series Float)} {n n' : Nat} {m' : Model}
    (h : bindings.foldlM Model.loadSeries (m, n) = .ok (m', n')) : (bindings.foldlM loadSeries n).run m = .ok n' m' := by
  induction bindings generalizing m n with
  | nil =>
    cases h
    rfl
  | cons b bindings ih =>
    rw [List.foldlM_cons] at h ⊢
    obtain ⟨⟨m₁, n₁⟩, hstep, h⟩ := bind_eq_ok_iff.mp h
    rw [EStateM.run_bind, loadSeries_run, hstep]
    exact ih h

/-- Once the text has been read no series of it can be refused, since all of them have the length of the
    timeline, as the bound ones have. -/
theorem loadInputs_run (hm : m.Coherent) (hf : m.Fitting) (bs : List UInt8) :
    (loadInputs bs).run m = ending m (m.loadInputs bs) := by
  rw [loadInputs, get_bind]
  cases hread : Csv.readInputs .standard m.timeline bs with
  | error fault =>
    rw [Model.loadInputs, hread]
    rfl
  | ok inputs =>
    obtain ⟨m', n, hload, -⟩ := Model.exists_loadInputs hm hf hread
    rw [hload]
    rw [Model.loadInputs, hread] at hload
    exact foldlM_loadSeries_run hload

/-! ### All calls -/

/-- The calls that can be refused. -/
inductive Call where
  | setInput (key : String) (values : Series Float)
  | setSeries (r : Reference) (values : Series Float)
  | removeInput (key : String)
  | addCalculation (c : Calculation)
  | updateFormula (id : CalculationId) (formula : String)
  | setMeasure (id : CalculationId) (measure : Measure)
  | removeCalculation (id : CalculationId)
  | recompute (changed : List CalculationId)
  | loadInputs (bs : List UInt8)

inductive Answer where
  | done
  | removed (values : Option (Series Float))
  | calculation (c : Calculation)
  | recomputed (stats : RecomputeStats)
  | loaded (changed : Nat)

namespace Call

def perform : Call → Action Answer
  | .setInput key values => do InPlace.setInput key values; return .done
  | .setSeries r values => do InPlace.setSeries r values; return .done
  | .removeInput key => return .removed (← InPlace.removeInput key)
  | .addCalculation c => do InPlace.addCalculation c; return .done
  | .updateFormula id formula => do InPlace.updateFormula id formula; return .done
  | .setMeasure id measure => do InPlace.setMeasure id measure; return .done
  | .removeCalculation id => return .calculation (← InPlace.removeCalculation id)
  | .recompute changed => return .recomputed (← InPlace.recompute changed)
  | .loadInputs bs => return .loaded (← InPlace.loadInputs bs)

def apply (m : Model) : Call → Except ModelError (Model × Answer)
  | .setInput key values => (m.setInput key values).map (·, .done)
  | .setSeries r values => (m.setSeries r values).map (·, .done)
  | .removeInput key => (m.removeInput key).map fun (m', values) => (m', .removed values)
  | .addCalculation c => (m.addCalculation c).map (·, .done)
  | .updateFormula id formula => (m.updateFormula id formula).map (·, .done)
  | .setMeasure id measure => (m.setMeasure id measure).map (·, .done)
  | .removeCalculation id => (m.removeCalculation id).map fun (m', c) => (m', .calculation c)
  | .recompute changed => (m.recompute changed).map fun (m', stats) => (m', .recomputed stats)
  | .loadInputs bs => (m.loadInputs bs).map fun (m', changed) => (m', .loaded changed)

end Call

theorem answer_run {x : Action α} {outcome : Except ModelError (Model × α)} (h : x.run m = ending m outcome) (f : α → β) :
    (x >>= fun a => pure (f a)).run m = ending m (outcome.map fun (m', a) => (m', f a)) := by
  rw [EStateM.run_bind, h]
  cases outcome <;> rfl

/-- On every model that operations lead to, a call in place does what the function does. -/
theorem perform_run {allowed : Operation → Prop} (h : Model.Reached allowed m) (call : Call) :
    call.perform.run m = ending m (call.apply m) := by
  have hdone {x : Action Unit} {outcome : Except ModelError Model} (h : x.run m = ending m (outcome.map (·, ()))) :
      (x >>= fun _ => pure Answer.done).run m = ending m (outcome.map (·, Answer.done)) := by
    refine (answer_run h fun _ => Answer.done).trans ?_
    cases outcome <;> rfl
  cases call with
  | setInput key values => exact hdone (setInput_run key values)
  | setSeries r values => exact hdone (setSeries_run r values)
  | removeInput key => exact answer_run (removeInput_run key) _
  | addCalculation c => exact hdone (addCalculation_run c)
  | updateFormula id formula => exact hdone (updateFormula_run id formula)
  | setMeasure id measure => exact hdone (setMeasure_run id measure)
  | removeCalculation id => exact answer_run (removeCalculation_run id) _
  | recompute changed => exact answer_run (recompute_run changed) _
  | loadInputs bs =>
    obtain ⟨past, hs⟩ := h.sound
    exact answer_run (loadInputs_run hs.toCoherent h.fitting bs) _

/-- A call that is refused leaves no trace: whatever it was about to do, the model is the one before it.
    It is refused exactly if the function refuses, for the same reason. -/
theorem refused_leaves_no_trace {allowed : Operation → Prop} (h : Model.Reached allowed m) (call : Call) :
    (∀ e m', call.perform.run m = .error e m' → m' = m) ∧
      ∀ e, (∃ m', call.perform.run m = .error e m') ↔ call.apply m = .error e := by
  rw [perform_run h call]
  cases call.apply m with
  | ok outcome => exact ⟨fun _ _ he => (nomatch he), fun _ => ⟨fun ⟨_, he⟩ => (nomatch he), fun he => (nomatch he)⟩⟩
  | error refusal =>
    refine ⟨fun e m' he => ?_, fun e => ⟨fun ⟨m', he⟩ => ?_, fun he => ?_⟩⟩
    · cases he
      rfl
    · cases he
      rfl
    · cases he
      exact ⟨m, rfl⟩

/-- A recompute of a calculation that exists and of one that does not. -/
theorem refused_leaves_no_trace_late : Model.Reached (fun _ => True) Model.dangling ∧
    ∃ m', (Call.recompute [1, 9]).perform.run Model.dangling = .error (.notFound 9) m' ∧ m' = Model.dangling := by
  obtain ⟨hsame, hiff⟩ := refused_leaves_no_trace Model.dangling_reached (.recompute [1, 9])
  obtain ⟨m', hrun⟩ := (hiff (.notFound 9)).mpr rfl
  exact ⟨Model.dangling_reached, m', hrun, hsame _ _ hrun⟩

end MonthlyModel.InPlace
