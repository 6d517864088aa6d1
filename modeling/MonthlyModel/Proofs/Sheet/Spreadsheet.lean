import MonthlyModel.Formula.Operator
import MonthlyModel.Formula.Temporal
import MonthlyModel.Sheet.Column

/-! How a spreadsheet reads and computes the formula of a cell.

Operators of equal strength associate to the left, and the minus sign in front of an operand binds more
tightly than all of them. A reference is an area of cells; that a column or a row is marked as absolute
makes a difference to copies only. Functions fold the cells of the areas that they are given, a division
by zero is an error, and a comparison has a truth value. -/

namespace MonthlyModel.Sheet

open MonthlyModel.Formula (Operator countStep)

/-! ### Terms -/

/-- Cells between two corners. -/
structure Area where
  sheet : String
  firstColumn : Nat
  firstRow : Nat
  lastColumn : Nat
  lastRow : Nat

/-- What a formula writes. -/
inductive Term where
  | numeral (cs : List Char)
  | text (cs : List Char)
  | area (a : Area)
  | negate (operand : Term)
  | binary (o : Operator) (left right : Term)
  | call (name : List Char) (arguments : List Term)

/-! ### Reading -/

/-- The operator at the front of a text, and the rest. -/
def takeOperator : List Char → Option (Operator × List Char)
  | '+' :: cs => some (.add, cs)
  | '-' :: cs => some (.subtract, cs)
  | '*' :: cs => some (.multiply, cs)
  | '/' :: cs => some (.divide, cs)
  | '^' :: cs => some (.power, cs)
  | '=' :: cs => some (.equal, cs)
  | '<' :: '=' :: cs => some (.atMost, cs)
  | '<' :: '>' :: _ => none
  | '<' :: cs => some (.less, cs)
  | '>' :: '=' :: cs => some (.atLeast, cs)
  | '>' :: cs => some (.greater, cs)
  | _ => none

theorem length_takeOperator_lt {cs rest : List Char} {o : Operator} (h : takeOperator cs = some (o, rest)) :
    rest.length < cs.length := by
  unfold takeOperator at h
  split at h <;> cases h <;> simp only [List.length_cons] <;> omega

/-- A text without the mark of an absolute row or column in front. -/
def dropMark : List Char → List Char
  | '$' :: cs => cs
  | cs => cs

/-- The column and the row of the cell at the front of a text, and the rest. -/
def takeCorner (cs : List Char) : Option ((Nat × Nat) × List Char) :=
  let cs := dropMark cs
  let letters := cs.takeWhile Char.isAlpha
  let rest := dropMark (cs.dropWhile Char.isAlpha)
  let digits := rest.takeWhile Decimal.isDigit
  if letters.isEmpty || digits.isEmpty then none
  else some ((ofLetters letters, Decimal.ofDigits digits), rest.dropWhile Decimal.isDigit)

/-- The area at the front of a text, and the rest; one cell is an area. -/
def takeArea (sheet : String) (cs : List Char) : Option (Term × List Char) :=
  match takeCorner cs with
  | some ((column, row), ':' :: rest) =>
    (takeCorner rest).map fun ((column', row'), rest) => (.area ⟨sheet, column, row, column', row'⟩, rest)
  | some ((column, row), rest) => some (.area ⟨sheet, column, row, column, row⟩, rest)
  | none => none

/-- The name of a sheet up to its closing mark, and the rest. A mark in the name is written twice. -/
def takeQuoted : List Char → Option (List Char × List Char)
  | '\'' :: '\'' :: cs => (takeQuoted cs).map fun (name, rest) => ('\'' :: name, rest)
  | '\'' :: cs => some ([], cs)
  | c :: cs => (takeQuoted cs).map fun (name, rest) => (c :: name, rest)
  | [] => none

/-- Whether a character goes on with a numeral. -/
def isNumeralChar (c : Char) : Bool :=
  Decimal.isDigit c || c = '.'

mutual

/-- The term at the front of a text whose operators have at least some strength, and the rest. -/
def readTerm (home : String) (strength : Nat) (cs : List Char) : Option (Term × List Char) :=
  if strength < 5 then
    match readTerm home (strength + 1) cs with
    | some (t, rest) => if rest.length < cs.length then climb home strength t rest else none
    | none => none
  else
    match cs with
    | '-' :: rest => (readTerm home 5 rest).map fun (t, rest) => (.negate t, rest)
    | cs => readAtom home cs
termination_by (cs.length, 1 + (5 - strength))

/-- Goes on with the operators of some strength and their right operands. -/
def climb (home : String) (strength : Nat) (left : Term) (cs : List Char) : Option (Term × List Char) :=
  match _h : takeOperator cs with
  | some (o, rest) =>
    if o.strength = strength then
      match readTerm home (strength + 1) rest with
      | some (right, rest') =>
        if rest'.length < rest.length then climb home strength (.binary o left right) rest' else none
      | none => none
    else some (left, cs)
  | none => some (left, cs)
termination_by (cs.length, 7)
decreasing_by
  all_goals
    have := length_takeOperator_lt ‹_›
    simp_wf
    omega

/-- The term without an operator of its own at the front of a text, and the rest. -/
def readAtom (home : String) (cs : List Char) : Option (Term × List Char) :=
  match cs with
  | '(' :: rest =>
    match readTerm home 1 rest with
    | some (t, ')' :: rest) => some (t, rest)
    | _ => none
  | '\"' :: rest =>
    match rest.dropWhile (· != '\"') with
    | _ :: rest' => some (.text (rest.takeWhile (· != '\"')), rest')
    | [] => none
  | '\'' :: rest =>
    match takeQuoted rest with
    | some (sheet, '!' :: rest) => takeArea (String.ofList sheet) rest
    | _ => none
  | cs =>
    if cs.head?.any Decimal.isDigit then some (.numeral (cs.takeWhile isNumeralChar), cs.dropWhile isNumeralChar)
    else
      match _h : cs.dropWhile Char.isAlpha with
      | '(' :: rest =>
        (readArguments home rest).map fun (ts, rest) => (.call (cs.takeWhile Char.isAlpha) ts, rest)
      | _ => takeArea home cs
termination_by (cs.length, 0)
decreasing_by
  · exact .left _ _ (Nat.lt_succ_self _)
  · have := ‹cs.dropWhile _ = _› ▸ (List.dropWhile_sublist (l := cs) Char.isAlpha).length_le
    simp only [List.length_cons] at this
    omega

/-- The arguments up to a closing bracket, and the rest after it. -/
def readArguments (home : String) (cs : List Char) : Option (List Term × List Char) :=
  match cs with
  | ')' :: rest => some ([], rest)
  | cs => readMore home cs
termination_by (cs.length, 9)

/-- At least one argument and all others up to a closing bracket, and the rest after it. -/
def readMore (home : String) (cs : List Char) : Option (List Term × List Char) :=
  match readTerm home 1 cs with
  | some (t, ')' :: rest) => some ([t], rest)
  | some (t, ',' :: rest) =>
    if rest.length < cs.length then (readMore home rest).map fun (ts, rest) => (t :: ts, rest) else none
  | _ => none
termination_by (cs.length, 8)

end

/-- The term of the formula that the content of a cell is, on a sheet. -/
def readFormula (home : String) (content : String) : Option Term :=
  match content.toList with
  | '=' :: cs =>
    match readTerm home 1 cs with
    | some (t, []) => some t
    | _ => none
  | _ => none

/-! ### Values -/

/-- What a term stands for. -/
inductive Value (α : Type) where
  | number (x : α)
  | truth (b : Bool)
  | text (cs : List Char)
  | cells (xs : List α)
  | error

/-- The numbers in the cells of a spreadsheet, by sheet, column and row, and what numerals stand for. -/
structure Spreadsheet (α : Type) where
  cell : String → Nat → Nat → α
  numeral : List Char → α

section
variable {α : Type} [Arithmetic α]

namespace Value

/-- The number that an operator sees. A truth value counts as one or zero. -/
def scalar : Value α → Option α
  | .number x => some x
  | .truth b => some (MonthlyModel.truth b)
  | .cells [x] => some x
  | _ => none

/-- The numbers that a function sees which folds its arguments. -/
def items : Value α → Option (List α)
  | .number x => some [x]
  | .truth b => some [MonthlyModel.truth b]
  | .cells xs => some xs
  | _ => none

/-- The numbers of several arguments. -/
def allItems (vs : List (Value α)) : Option (List α) :=
  (vs.mapM items).map List.flatten

/-- A number, or an error in place of none. -/
def ofOption : Option α → Value α
  | some x => .number x
  | none => .error

/-- The value of an operator on two numbers. -/
def compute (o : Operator) (x y : α) : Value α :=
  match o with
  | .divide => if Arithmetic.equal y 0 then .error else .number (Arithmetic.quotient x y)
  | .add => .number (x + y)
  | .subtract => .number (x - y)
  | .multiply => .number (x * y)
  | .power => .number (Arithmetic.power x y)
  | .equal => .truth (Arithmetic.equal x y)
  | .less => .truth (Arithmetic.less x y)
  | .atMost => .truth (Arithmetic.atMost x y)
  | .greater => .truth (Arithmetic.less y x)
  | .atLeast => .truth (Arithmetic.atMost y x)

/-- The value of an operator. -/
def operate (o : Operator) (l r : Value α) : Value α :=
  match l.scalar, r.scalar with
  | some x, some y => compute o x y
  | _, _ => .error

/-- The value of a function in a cell of a column. -/
def apply (column : Nat) (name : String) (vs : List (Value α)) : Value α :=
  match name, vs with
  | "COLUMN", [] => .number (Arithmetic.ofNat column)
  | "IFERROR", [.error, w] => w
  | "IFERROR", [v, _] => v
  | "ABS", [v] => ofOption (v.scalar.map Arithmetic.magnitude)
  | "MAX", vs => ofOption ((allItems vs).map Arithmetic.largest)
  | "MIN", vs => ofOption ((allItems vs).map Arithmetic.smallest)
  | "SUM", vs => ofOption ((allItems vs).map (List.foldl (· + ·) 0))
  | "PRODUCT", vs => ofOption ((allItems vs).map (List.foldl (· * ·) 1))
  | "SUMPRODUCT", [.cells xs, .cells ys] => .number ((List.zipWith (· * ·) xs ys).foldl (· + ·) 0)
  | "COUNTIF", [.cells xs, .text criterion] =>
    if criterion = "<>0".toList then .number (xs.foldl countStep 0) else .error
  | _, _ => .error

end Value

namespace Spreadsheet

/-- The numbers in the cells of an area, row by row. -/
def area (s : Spreadsheet α) (a : Area) : List α :=
  (List.range' a.firstRow (a.lastRow + 1 - a.firstRow)).flatMap fun row =>
    (List.range' a.firstColumn (a.lastColumn + 1 - a.firstColumn)).map fun column => s.cell a.sheet column row

/-- The value of a term in a cell of a column. -/
def value (s : Spreadsheet α) (column : Nat) : Term → Value α
  | .numeral cs => .number (s.numeral cs)
  | .text cs => .text cs
  | .area a => .cells (s.area a)
  | .negate t => .ofOption ((s.value column t).scalar.map (- ·))
  | .binary o l r => .operate o (s.value column l) (s.value column r)
  | .call name ts => .apply column (String.ofList name) (values s column ts)
where
  /-- The values of several terms. -/
  values (s : Spreadsheet α) (column : Nat) : List Term → List (Value α)
    | [] => []
    | t :: ts => s.value column t :: values s column ts

/-- The number that the content of a cell stands for, on a sheet and in a column. -/
def cellValue? (s : Spreadsheet α) (home : String) (column : Nat) (content : String) : Option α :=
  (readFormula home content).bind fun t => (s.value column t).scalar

end Spreadsheet

end

end MonthlyModel.Sheet
