import MonthlyModel.Csv.Inputs
import MonthlyModel.Sheet.Error

/-!
Why a model refuses an operation.
-/

namespace MonthlyModel

/-- Why an operation on a model is refused. -/
inductive ModelError where
  | reference (e : ReferenceError)
  | length (e : LengthMismatch)
  /-- The calculation exists. -/
  | duplicate (id : CalculationId)
  /-- The calculation does not exist. -/
  | notFound (id : CalculationId)
  /-- Calculations wait for a recompute. -/
  | stale (count : Nat)
  | inputs (fault : Csv.InputFault)
  | notExported (e : Sheet.ExportError)
deriving DecidableEq

/-- The error as a user reads it. -/
def ModelError.message : ModelError → String
  | .reference e => e.message
  | .length e => e.message
  | .duplicate id => s!"Calculation R{id} already exists"
  | .notFound id => s!"Calculation R{id} not found"
  | .stale n => s!"Results are stale: {n} calculation(s) awaiting recompute"
  | .inputs fault => fault.message
  | .notExported e => e.message

end MonthlyModel
