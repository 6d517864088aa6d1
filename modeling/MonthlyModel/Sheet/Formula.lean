import MonthlyModel.Decimal.Shortest
import MonthlyModel.Formula.Function
import MonthlyModel.Formula.Operator
import MonthlyModel.Sheet.Column
import MonthlyModel.Text

/-!
Formulas of spreadsheet cells, as trees and as text. Rows are absolute in the text and columns
relative, except for the start of a range. A part is bracketed where it binds less tightly than its
place asks for.
-/

namespace MonthlyModel.Sheet

open MonthlyModel.Formula (Function Operator)

/-- A cell of a sheet. -/
structure Cell where
  sheet : String
  row : Nat
  column : Nat
deriving DecidableEq, Repr

/-- Neighbouring cells of a row. -/
structure RowRange where
  sheet : String
  row : Nat
  first : Nat
  last : Nat
deriving DecidableEq, Repr

/-- The formula of a cell. -/
inductive CellFormula where
  | number (value : Float)
  | cell (c : Cell)
  | negate (operand : CellFormula)
  /-- Quotients by zero are zero, and comparisons are one or zero. -/
  | binary (o : Operator) (left right : CellFormula)
  | call (f : Function) (arguments : List CellFormula)
  | sum (r : RowRange)
  | product (r : RowRange)
  | countNonzero (r : RowRange)
  | sumOfProducts (r s : RowRange)
  /-- How far the column of the formula's own cell lies past a column. -/
  | columnsPast (column : Int)

/-! ### Text -/

/-- The sheet of a cell, left out on the sheet of the formula itself. -/
def qualifier (home sheet : String) : List Char :=
  if sheet = home then []
  else Text.quoted '\'' sheet.toList ++ ['!']

/-- A cell as formulas on a sheet write it. -/
def Cell.text (home : String) (c : Cell) : List Char :=
  qualifier home c.sheet ++ columnLetters c.column ++ '$' :: Decimal.digits c.row

/-- A range as formulas on a sheet write it. -/
def RowRange.text (home : String) (r : RowRange) : List Char :=
  qualifier home r.sheet ++ '$' :: columnLetters r.first ++ '$' :: Decimal.digits r.row ++
    ':' :: columnLetters r.last ++ '$' :: Decimal.digits r.row

/-- A number; zero has no sign. -/
def numberText (x : Float) : List Char :=
  if x == 0 then ['0'] else (Decimal.text x).toList

/-- The symbol of an operator in cells. -/
def cellSymbol : Operator → List Char
  | .equal => ['=']
  | o => o.symbol.toList

namespace CellFormula

/-- How tightly the outermost operator of the text binds. -/
def strength : CellFormula → Nat
  | .number x => if x < 0 then 5 else 10
  | .negate _ => 5
  | .binary o _ _ =>
    match o with
    | .add | .subtract => 2
    | .multiply => 3
    | .divide => 10
    | .power => 4
    | .equal | .less | .atMost | .greater | .atLeast => 3
  | _ => 10

/-- The least strength of the left and the right operand that need no brackets. -/
def operandStrengths : Operator → Nat × Nat
  | .add | .subtract => (2, 3)
  | .multiply | .divide => (3, 4)
  | .power => (5, 5)
  | .equal | .less | .atMost | .greater | .atLeast => (2, 2)

/-- The text of a part, in brackets if it binds less tightly than its place asks for. -/
def bracketed (least strength : Nat) (text : List Char) : List Char :=
  if strength < least then '(' :: text ++ [')'] else text

/-- The text of an operation on the texts of its operands. A quotient catches division by zero, and a
comparison is made a number. -/
def operationText (o : Operator) (left right : List Char) : List Char :=
  let plain := left ++ cellSymbol o ++ right
  if o = .divide then "IFERROR(".toList ++ plain ++ ",0)".toList
  else if o.isComparison then '(' :: plain ++ ")*1".toList
  else plain

/-- The text of a formula, without the equals sign in front, in a cell of a sheet. -/
def text (home : String) : CellFormula → List Char
  | .number x => numberText x
  | .cell c => c.text home
  | .negate e => '-' :: bracketed 5 e.strength (e.text home)
  | .binary o l r =>
    operationText o (bracketed (operandStrengths o).1 l.strength (l.text home))
      (bracketed (operandStrengths o).2 r.strength (r.text home))
  | .call f es => f.name.toList ++ '(' :: [','].intercalate (texts home es) ++ [')']
  | .sum r => "SUM(".toList ++ r.text home ++ [')']
  | .product r => "PRODUCT(".toList ++ r.text home ++ [')']
  | .countNonzero r => "COUNTIF(".toList ++ r.text home ++ ",\"<>0\")".toList
  | .sumOfProducts r s => "SUMPRODUCT(".toList ++ r.text home ++ ',' :: s.text home ++ [')']
  | .columnsPast n => "(COLUMN()-".toList ++ Decimal.intDigits n ++ [')']
where
  /-- The texts of several formulas. -/
  texts (home : String) : List CellFormula → List (List Char)
    | [] => []
    | e :: es => e.text home :: texts home es

end CellFormula

end MonthlyModel.Sheet
