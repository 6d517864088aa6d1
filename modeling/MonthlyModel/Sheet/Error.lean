import MonthlyModel.Formula.Error

/-!
Why a calculation, or one of its cells, is not exported as a formula.
-/

namespace MonthlyModel.Sheet

open MonthlyModel.Formula (Function ErrorKind)

/-- What keeps a sound formula from being written into a cell. -/
inductive Obstacle where
  /-- A literal that is no finite number. -/
  | literalRange
  /-- An argument that has to be a reference and is not. -/
  | notReference (f : Function)
  /-- An argument of a running sum that has no range formula. -/
  | notSummable
  /-- A function that starts anew with every year. -/
  | yearReset (f : Function)
  /-- An offset of a shift that is not written as a whole number. -/
  | offsetNotWritten
  /-- A shift to a column that the sheet does not have. -/
  | pastLastColumn
  | noArgument (f : Function)
deriving DecidableEq, Repr

namespace Obstacle

/-- What cannot be converted. -/
def subject : Obstacle → String
  | .literalRange => "number"
  | .notReference f | .yearReset f | .noArgument f => f.name
  | .notSummable => Function.cumsum.name
  | .offsetNotWritten | .pastLastColumn => Function.shift.name

/-- Why it cannot. -/
def reason : Obstacle → String
  | .literalRange => "literal is outside the spreadsheet's numeric range"
  | .notReference _ => "argument must be a single reference"
  | .notSummable => "argument must be a reference, a number, or a product or sum of two references"
  | .yearReset _ => "year-boundary resets have no closed form"
  | .offsetNotWritten => "offset must be a whole-number literal"
  | .pastLastColumn => "offset reaches past the last spreadsheet column"
  | .noArgument _ => "missing argument"

end Obstacle

/-- Why there is no formula, or no export. -/
inductive ExportError where
  | formula (e : FormulaError)
  /-- A text that is meant for readers. -/
  | prose (text : String)
  | unconvertible (o : Obstacle)
  /-- A reference without a row. -/
  | noRow (r : Reference)
  /-- A calculation whose own evaluation failed. -/
  | broken (r : Reference)
  /-- A calculation that has more or fewer values than the export has months. -/
  | valueCount (r : Reference) (expected actual : Nat)
deriving DecidableEq

namespace ExportError

/-- The error as a user reads it. -/
def message : ExportError → String
  | .formula e => e.message
  | .prose text => s!"Descriptive text, not a formula: {text}"
  | .unconvertible o => s!"Cannot convert {o.subject}: {o.reason}"
  | .noRow r => s!"No layout row for {r.text}"
  | .broken r => s!"Calculation {r.text} has an evaluation error"
  | .valueCount r expected actual => s!"{r.text} has {actual} values, export needs {expected}"

/-- The class of an error. -/
def kind : ExportError → ErrorKind
  | .formula e => e.kind
  | _ => .conversion

end ExportError

end MonthlyModel.Sheet
