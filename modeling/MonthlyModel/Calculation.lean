import MonthlyModel.Aggregation
import MonthlyModel.Reference

/-!
The calculations of a model: a formula with a name and a place in the model's user interface.
-/

namespace MonthlyModel

/-- A formula with a name and the place at which it is shown. -/
structure Calculation where
  id : CalculationId
  /-- The tab that shows the calculation. -/
  tab : Option UInt32
  /-- The group of the tab that shows the calculation. -/
  group : Option UInt32
  name : String
  formula : String
  measure : Measure
deriving DecidableEq, Repr

namespace Calculation

/-- The reference by which formulas read the calculation. -/
def reference (c : Calculation) : Reference :=
  .calculation c.id

/-- The text of the calculation's reference. -/
def label (c : Calculation) : String :=
  c.reference.text

/-- A flow that belongs to no tab and no group. -/
def ofFormula (id : CalculationId) (name formula : String) : Calculation :=
  ⟨id, none, none, name, formula, .flow⟩

end Calculation

end MonthlyModel
