import MonthlyModel.Decimal.Binary
import MonthlyModel.Formula.Expr
import MonthlyModel.Sheet.Error
import MonthlyModel.Sheet.Formula
import MonthlyModel.Sheet.Layout

/-!
Conversion of expressions into cell formulas. An expression is converted for the month of one column:
references become the cells of their rows in that column, running functions ranges from the first
month on, and shifts move to another column. What has no such formula is reported.
-/

namespace MonthlyModel.Sheet

open MonthlyModel.Formula (Expr Function Operator)

/-- What a conversion knows about its surroundings. -/
structure Surroundings where
  /-- The column of the first month. -/
  firstColumn : Nat
  /-- The last column that shifts may reach, if there is one. -/
  limit : Option Nat
  /-- The position of the month whose cell is written. -/
  home : Nat
  /-- The row of a reference. -/
  row? : Reference → Option CellRow

namespace Surroundings

/-- The cell of a layout in the column of a month. -/
def ofLayout (l : Layout) (position : Nat) : Surroundings where
  firstColumn := l.firstColumn
  limit := some lastColumn
  home := position
  row? := l.get?

/-- A sheet without end in which everything has a row. The cell stands so far to the right that
shifts of usual size stay on the sheet. -/
def unbounded : Surroundings where
  firstColumn := Layout.empty.firstColumn
  limit := none
  home := Nat.pow 2 20
  row? _ := some ⟨"", 1⟩

/-- The column of a month. -/
def column (s : Surroundings) (position : Nat) : Nat :=
  columnAfter s.firstColumn position

/-- The row of a reference, which must have one. -/
def row (s : Surroundings) (r : Reference) : Except ExportError CellRow :=
  match s.row? r with
  | some row => .ok row
  | none => .error (.noRow r)

/-- The cell of a reference in a month. -/
def cell (s : Surroundings) (r : Reference) (position : Nat) : Except ExportError Cell :=
  (s.row r).map fun row => ⟨row.sheet, row.row, s.column position⟩

/-- The cells of a reference from the first month to another. -/
def range (s : Surroundings) (r : Reference) (position : Nat) : Except ExportError RowRange :=
  (s.row r).map fun row => ⟨row.sheet, row.row, s.column 0, s.column position⟩

end Surroundings

/-- The nearest number that 64 bits hold. -/
def saturate (n : Int) : Int :=
  max (-Nat.pow 2 63) (min n (Nat.pow 2 63 - 1))

/-- A number in a cell, which must be finite. -/
def numberFormula (x : Float) : Except ExportError CellFormula :=
  if x.isFinite then .ok (.number x) else .error (.unconvertible .literalRange)

/-- The running sum of a number: as many times the number as months have passed. -/
def countedFormula (s : Surroundings) (x : Float) (position : Nat) : Except ExportError CellFormula :=
  -- The formula counts columns from its own cell, which stands where the sum ends or after it.
  let months := CellFormula.columnsPast ((s.firstColumn : Int) - 1 + (s.home - position))
  if x == 1 then .ok months
  else (numberFormula x).map (.binary .multiply · months)

/-- The running sum of an expression up to a month. -/
def runningSum (s : Surroundings) (e : Expr) (position : Nat) : Except ExportError CellFormula :=
  match e with
  | .reference r => (s.range r position).map .sum
  | .binary .multiply (.reference a) (.reference b) => do
    let ra ← s.range a position
    let rb ← s.range b position
    return .sumOfProducts ra rb
  | .binary .add (.reference a) (.reference b) => do
    let ra ← s.range a position
    let rb ← s.range b position
    return .binary .add (.sum ra) (.sum rb)
  | e =>
    match e.asNumber? with
    | some x => countedFormula s x position
    | none => .error (.unconvertible .notSummable)

/-- A running function of a single reference, given the formula for its range. -/
def ofRange (s : Surroundings) (f : Function) (make : RowRange → CellFormula) (e : Expr)
    (position : Nat) : Except ExportError CellFormula :=
  match e.asReference? with
  | some r => (s.range r position).map make
  | none => .error (.unconvertible (.notReference f))

/-- The offset that an expression writes. -/
def writtenOffset (e : Expr) : Except ExportError Int :=
  match e.asNumber?.bind Decimal.whole? with
  | some offset => .ok (saturate offset)
  | none => .error (.unconvertible .offsetNotWritten)

/-- Where a shift leads. There is nothing before the first month, and the sheet may end. -/
inductive Landing where
  | before
  | on (position : Nat)
  | past

/-- The month that lies `offset` months before another. -/
def Surroundings.landing (s : Surroundings) (position : Nat) (offset : Int) : Landing :=
  let target := saturate (position - offset)
  if target < 0 then .before
  else if s.limit.any (s.firstColumn + target.toNat > ·) then .past
  else .on target.toNat

mutual

/-- The formula that computes the value of an expression in a month. -/
def convertExpr (s : Surroundings) (e : Expr) (position : Nat) : Except ExportError CellFormula :=
  match e with
  | .number x => numberFormula x
  | .reference r => (s.cell r position).map .cell
  | .negate e => do return .negate (← convertExpr s e position)
  | .binary o l r => do
    let l ← convertExpr s l position
    let r ← convertExpr s r position
    return .binary o l r
  | .call .abs es => do return .call .abs (← convertAll s es position)
  | .call .max es => do return .call .max (← convertAll s es position)
  | .call .min es => do return .call .min (← convertAll s es position)
  | .call .cumsum (e :: _) => runningSum s e position
  | .call .cumprod (e :: _) => ofRange s .cumprod .product e position
  | .call .count (e :: _) => ofRange s .count .countNonzero e position
  | .call .cumsumByYear _ => .error (.unconvertible (.yearReset .cumsumByYear))
  | .call .cumprodByYear _ => .error (.unconvertible (.yearReset .cumprodByYear))
  -- Nothing comes before the first month, and a range would have no cell.
  | .call .prevsum (e :: _) => if position = 0 then numberFormula 0 else runningSum s e (position - 1)
  | .call .prevval (e :: _) => convertShifted s e position 1
  | .call .shift (e :: offset :: _) => do convertShifted s e position (← writtenOffset offset)
  | .call .shift _ => .error (.unconvertible .offsetNotWritten)
  | .call f [] => .error (.unconvertible (.noArgument f))
termination_by (sizeOf e, 0)

/-- The formula for the value some months before. -/
def convertShifted (s : Surroundings) (e : Expr) (position : Nat) (offset : Int) :
    Except ExportError CellFormula :=
  match s.landing position offset with
  | .before => numberFormula 0
  | .past => .error (.unconvertible .pastLastColumn)
  | .on target => convertExpr s e target
termination_by (sizeOf e, 1)

/-- The formulas of several expressions. -/
def convertAll (s : Surroundings) (es : List Expr) (position : Nat) :
    Except ExportError (List CellFormula) :=
  match es with
  | [] => .ok []
  | e :: es => do
    let f ← convertExpr s e position
    return f :: (← convertAll s es position)
termination_by (sizeOf es, 0)

end

end MonthlyModel.Sheet
