import MonthlyModel.Calculation
import MonthlyModel.Formula.Evaluation
import MonthlyModel.Sheet.Conversion
import MonthlyModel.Sheet.Prose

/-!
Export of calculations into sheets. Every month of a calculation becomes a cell: a formula where there
is one, and the computed value elsewhere. A row with a value in place of a formula is degraded and
keeps the first reason.
-/

namespace MonthlyModel.Sheet

open MonthlyModel.Formula (Expr parse isBlankFormula)

/-- The cell formula for the text of a formula in a month. No formula at all becomes zero. -/
def convert (cs : List Char) (l : Layout) (position : Nat) : Except ExportError CellFormula :=
  if isBlankFormula cs then .ok (.number 0)
  -- Text for readers is told apart first, since most of it would be reported as a broken formula.
  else if !looksLikeFormula cs then .error (.prose (String.ofList (Text.trim cs)))
  else
    match parse cs with
    | .error e => .error (.formula e)
    | .ok e => convertExpr (.ofLayout l position) e position

/-- The content of a cell with a formula. -/
def CellFormula.content (home : String) (f : CellFormula) : String :=
  String.ofList ('=' :: f.text home)

/-- Whether an expression has a cell formula in every column. -/
def convertsEverywhere (e : Expr) : Bool :=
  (convertExpr .unbounded e Surroundings.unbounded.home).isOk

/-- Whether a text has a cell formula in every column, if its references have rows. -/
def canConvert (cs : List Char) : Bool :=
  isBlankFormula cs || looksLikeFormula cs && (parse cs).toOption.any convertsEverywhere

/-- What stands in an exported cell. -/
inductive ExportCell where
  | formula (f : CellFormula)
  | value (x : Float)

/-- Whether a cell holds a formula and not a value. -/
def ExportCell.isFormula : ExportCell → Bool
  | formula _ => true
  | value _ => false

/-- A calculation with its values. -/
structure ExportSource where
  calculation : Calculation
  values : Series Float
  /-- Whether the evaluation failed; then only the values are exported. -/
  failed : Bool

/-- The exported row of a calculation. -/
structure ExportRow where
  id : CalculationId
  name : String
  place : CellRow
  cells : List ExportCell
  /-- Why at least one cell holds a value. -/
  degraded : Option ExportError

/-- The rows of an export. -/
structure ExportPlan where
  periods : Nat
  rows : List ExportRow

/-- The formula of a calculation in a month; a failed calculation has none. -/
def ExportSource.formulaAt (s : ExportSource) (l : Layout) (position : Nat) : Except ExportError CellFormula :=
  if s.failed then .error (.broken s.calculation.reference)
  else convert s.calculation.formula.toList l position

/-- A formula, or the value in its place. -/
def ExportCell.ofAttempt : Except ExportError CellFormula × Float → ExportCell
  | (.ok f, _) => .formula f
  | (.error _, x) => .value x

/-- The reason of an attempt without a formula. -/
def reason? {β : Type} : Except ExportError CellFormula × β → Option ExportError
  | (.ok _, _) => none
  | (.error e, _) => some e

/-- The row of a calculation, which must have a place and a value for each month. -/
def ExportRow.ofSource (l : Layout) (periods : Nat) (s : ExportSource) : Except ExportError ExportRow :=
  let r := s.calculation.reference
  match l.get? r with
  | none => .error (.noRow r)
  | some place =>
    if s.values.length ≠ periods then .error (.valueCount r periods s.values.length)
    else
      let attempts := s.values.zipIdx.map fun (x, i) => (s.formulaAt l i, x)
      .ok {
        id := s.calculation.id
        name := s.calculation.name
        place := place
        cells := attempts.map .ofAttempt
        degraded := attempts.findSome? reason? }

/-- How much of an export is formulas. -/
structure ExportStats where
  calculations : Nat
  /-- The number of cells with a formula. -/
  formulaCells : Nat
  /-- The number of cells with a value. -/
  valueCells : Nat
  /-- The number of rows with a value in place of a formula. -/
  degradedRows : Nat
deriving DecidableEq, Repr

namespace ExportStats

/-- Nothing was exported. -/
def none : ExportStats :=
  ⟨0, 0, 0, 0⟩

/-- The statistics with one more row. -/
def count (s : ExportStats) (row : ExportRow) : ExportStats :=
  let formulas := row.cells.countP (·.isFormula)
  { calculations := s.calculations + 1
    formulaCells := s.formulaCells + formulas
    valueCells := s.valueCells + (row.cells.length - formulas)
    degradedRows := s.degradedRows + row.degraded.isSome.toNat }

end ExportStats

namespace ExportPlan

/-- The export of several calculations. The first that cannot be exported at all is reported. -/
def ofSources (l : Layout) (periods : Nat) (sources : List ExportSource) : Except ExportError ExportPlan := do
  return ⟨periods, ← sources.mapM (ExportRow.ofSource l periods)⟩

/-- The statistics of all rows. -/
def stats (p : ExportPlan) : ExportStats :=
  p.rows.foldl .count .none

/-- How many cells hold formulas. -/
def formulaCells (p : ExportPlan) : Nat :=
  p.stats.formulaCells

/-- How many cells hold values. -/
def valueCells (p : ExportPlan) : Nat :=
  p.stats.valueCells

/-- How many rows have a value in place of a formula. -/
def degradedRows (p : ExportPlan) : Nat :=
  p.stats.degradedRows

/-- The share of cells with a formula; one if there are no cells. -/
def coverage (p : ExportPlan) : Float :=
  let total := p.formulaCells + p.valueCells
  if total = 0 then 1 else p.formulaCells.toFloat / total.toFloat

end ExportPlan

end MonthlyModel.Sheet
