import MonthlyModel.Csv.Table
import MonthlyModel.Model.Results

/-!
Models and their files: inputs are loaded from character-separated text, and results and exports are
written to it.
-/

namespace MonthlyModel.Model

/-- Binds a series that a file gives, and counts it if the binding changes. -/
def loadSeries (state : Model × Nat) (binding : Reference × Series Float) :
    Except ModelError (Model × Nat) := do
  let (m, changed) := state
  let (r, values) := binding
  if (m.series.get? r).any (sameSeries · values) then return state
  else return (← m.setSeries r values, changed + 1)

/-- Binds the series of a text, or none if the text has a fault; returns how many bindings changed. -/
def loadInputs (m : Model) (bs : List UInt8) : Except ModelError (Model × Nat) :=
  match Csv.readInputs .standard m.timeline bs with
  | .ok inputs => inputs.bindings.toList.foldlM loadSeries (m, 0)
  | .error fault => .error (.inputs fault)

/-- The values of all calculations as text. -/
def resultsText (m : Model) : Except ModelError String := do
  let rows ← m.calculations.mapM fun c => do
    return Csv.Row.ofSeries c.label c.name (← m.values c.id)
  return Csv.write .standard m.timeline.labels rows

/-- The export of a model as text, with its plan. -/
def exportText (m : Model) (l : Sheet.Layout) : Except ModelError (Sheet.ExportPlan × String) := do
  let plan ← m.exportPlan l
  return (plan, Csv.writeExport .standard m.timeline.labels plan)

end MonthlyModel.Model
