import MonthlyModel.Model.Recompute
import MonthlyModel.Proofs.Outcome

/-! Histories of models.

An operation that is refused leaves the model as it was. A model is reached from a new one, or from
one over bound series, by any number of operations. -/

namespace MonthlyModel

/-- What can be done to a model. -/
inductive Operation where
  | setInput (key : String) (values : Series Float)
  | setSeries (r : Reference) (values : Series Float)
  | removeInput (key : String)
  | addCalculation (c : Calculation)
  | updateFormula (id : CalculationId) (formula : String)
  | setMeasure (id : CalculationId) (measure : Measure)
  | removeCalculation (id : CalculationId)
  | setOptions (o : ModelOptions)
  | recompute (changed : List CalculationId)
  | recomputeAll

/-- The model that an operation leaves, unless it refuses it. -/
def Operation.apply (m : Model) : Operation → Except ModelError Model
  | .setInput key values => m.setInput key values
  | .setSeries r values => m.setSeries r values
  | .removeInput key => (m.removeInput key).map (·.1)
  | .addCalculation c => m.addCalculation c
  | .updateFormula id formula => m.updateFormula id formula
  | .setMeasure id measure => m.setMeasure id measure
  | .removeCalculation id => (m.removeCalculation id).map (·.1)
  | .setOptions o => .ok { m with options := o }
  | .recompute changed => (m.recompute changed).map (·.1)
  | .recomputeAll => .ok m.recomputeAll.1

/-- Whether an operation binds or unbinds no series under the name of a calculation. -/
def Operation.SparesCalculations : Operation → Prop
  | .setInput key _ => ∀ r, Reference.parse key = .ok r → r.family ≠ .calculation
  | .setSeries r _ => r.family ≠ .calculation
  | .removeInput key => ∀ r, Reference.parse key = .ok r → r.family ≠ .calculation
  | _ => True

namespace Model

/-- The model after an operation, which changes nothing if it is refused. -/
def after (m : Model) (o : Operation) : Model :=
  match o.apply m with
  | .ok m' => m'
  | .error _ => m

theorem after_of_ok {m m' : Model} {o : Operation} (h : o.apply m = .ok m') : m.after o = m' := by
  rw [after, h]

theorem after_of_error {m : Model} {o : Operation} {e : ModelError} (h : o.apply m = .error e) : m.after o = m := by
  rw [after, h]

/-- The models that operations of a kind lead to. -/
inductive Reached (allowed : Operation → Prop) : Model → Prop where
  | new (t : Timeline) (o : ModelOptions) : Reached allowed (new t o)
  | ofSeries {t : Timeline} {s : SeriesMap Float} {o : ModelOptions} {m : Model} (h : ofSeries t s o = .ok m) :
    Reached allowed m
  | after {m : Model} (hm : Reached allowed m) {o : Operation} (h : allowed o) : Reached allowed (m.after o)

/-- What holds at the start of every history and is kept by every operation that is not refused holds
    of every model that is reached. -/
theorem Reached.induct {allowed : Operation → Prop} {P : Model → Prop} (new : ∀ t o, P (Model.new t o))
    (ofSeries : ∀ {t s o m}, Model.ofSeries t s o = .ok m → P m)
    (step : ∀ {m o m'}, P m → allowed o → o.apply m = .ok m' → P m') {m : Model} (h : Reached allowed m) :
    P m := by
  induction h with
  | new t o => exact new t o
  | ofSeries h => exact ofSeries h
  | @after m _ o ho ih =>
    unfold Model.after
    split
    · next h => exact step ih ho h
    · exact ih

end Model

end MonthlyModel
