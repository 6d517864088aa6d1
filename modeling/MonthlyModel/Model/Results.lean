import MonthlyModel.Aggregation
import MonthlyModel.Model.Recompute
import MonthlyModel.Sheet.Export

/-!
What is read from a model: results, errors, aggregations, previews of formulas and exports. Nothing is
read while calculations are pending.
-/

namespace MonthlyModel

open Formula (Evaluation ErrorKind)

/-- A failed calculation, as it is shown to users. -/
structure Diagnostic where
  id : CalculationId
  label : String
  name : String
  kind : ErrorKind
  message : String

/-- The diagnostic of a calculation that failed. -/
def Entry.diagnostic? (e : Entry) : Option Diagnostic :=
  e.result.error.map fun error =>
    ⟨e.id, e.calculation.label, e.calculation.name, error.kind, error.message⟩

/-- What an export takes from a calculation. -/
def Entry.exportSource (e : Entry) : Sheet.ExportSource :=
  ⟨e.calculation, e.result.values, e.result.error.isSome⟩

namespace Model

/-- Refuses a model with pending calculations. -/
def ensureFresh (m : Model) : Except ModelError Unit :=
  if m.pending.isEmpty then .ok () else .error (.stale m.pending.size)

/-- The result of a calculation. -/
def result (m : Model) (id : CalculationId) : Except ModelError (Evaluation Float) := do
  -- A missing calculation is reported even if results are out of date.
  let e ← m.entry id
  m.ensureFresh
  return e.result

/-- The values of a calculation, zeros if it failed. -/
def values (m : Model) (id : CalculationId) : Except ModelError (Series Float) := do
  return (← m.result id).values

/-- The failed calculations, in the order in which they were added. -/
def diagnostics (m : Model) : Except ModelError (List Diagnostic) := do
  m.ensureFresh
  return m.entries.filterMap Entry.diagnostic?

/-- A calculation in display periods. -/
def aggregate (m : Model) (id : CalculationId) (groups : List PeriodGroup) :
    Except ModelError (Aggregation Float) := do
  let e ← m.entry id
  return e.calculation.measure.aggregate (← m.values id) groups

/-- The value that a formula would give a calculation. A formula through which the calculation would
read itself has none. -/
def preview (m : Model) (id : CalculationId) (formula : String) : Except ModelError (Evaluation Float) := do
  m.ensureFresh
  if m.graph.wouldClose id (Formula.namedCalculations formula.toList) then
    return .failed m.periods (.selfDependent id)
  else return Formula.evaluateText m.context formula.toList

/-- The export of all calculations. -/
def exportPlan (m : Model) (l : Sheet.Layout) : Except ModelError Sheet.ExportPlan := do
  m.ensureFresh
  match Sheet.ExportPlan.ofSources l m.periods (m.entries.map Entry.exportSource) with
  | .ok plan => return plan
  | .error e => throw (.notExported e)

end Model

end MonthlyModel
