import MonthlyModel.Arithmetic

/-!
The binary operators of formulas: their symbols, how tightly they bind and what they compute.
-/

namespace MonthlyModel.Formula

/-- Arithmetic and comparison. -/
inductive Operator where
  | add
  | subtract
  | multiply
  | divide
  | power
  | equal
  | less
  | atMost
  | greater
  | atLeast
deriving DecidableEq, Repr

namespace Operator

/-- All operators. -/
def all : List Operator :=
  [.add, .subtract, .multiply, .divide, .power, .equal, .less, .atMost, .greater, .atLeast]

/-- How formulas write an operator. -/
def symbol : Operator → String
  | .add => "+"
  | .subtract => "-"
  | .multiply => "*"
  | .divide => "/"
  | .power => "^"
  | .equal => "=="
  | .less => "<"
  | .atMost => "<="
  | .greater => ">"
  | .atLeast => ">="

/-- How tightly an operator binds; the greater, the tighter. -/
def strength : Operator → Nat
  | .equal | .less | .atMost | .greater | .atLeast => 1
  | .add | .subtract => 2
  | .multiply | .divide => 3
  | .power => 4

/-- Whether an operator compares its operands. -/
def isComparison (o : Operator) : Bool :=
  o.strength == 1

/-- The least strength of an operator that may stand unbracketed in the right operand: powers
associate to the right, all else to the left. -/
def rightStrength (o : Operator) : Nat :=
  if o = .power then o.strength else o.strength + 1

/-- The value of two operands. A quotient by zero is zero; a comparison is one or zero. -/
def apply {α : Type} [Arithmetic α] (o : Operator) (l r : α) : α :=
  match o with
  | .add => l + r
  | .subtract => l - r
  | .multiply => l * r
  | .divide => if Arithmetic.equal r 0 then 0 else Arithmetic.quotient l r
  | .power => Arithmetic.power l r
  | .equal => truth (Arithmetic.equal l r)
  | .less => truth (Arithmetic.less l r)
  | .atMost => truth (Arithmetic.atMost l r)
  | .greater => truth (Arithmetic.less r l)
  | .atLeast => truth (Arithmetic.atMost r l)

end Operator

end MonthlyModel.Formula
