import MonthlyModel.Formula.Function
import MonthlyModel.Formula.Operator
import MonthlyModel.Reference

/-!
Expressions, the trees that formula texts stand for. Brackets and signs without effect leave no trace
in them.
-/

namespace MonthlyModel.Formula

/-- The expressions of formulas. -/
inductive Expr where
  | number (value : Float)
  | reference (r : Reference)
  | negate (operand : Expr)
  | binary (o : Operator) (left right : Expr)
  | call (f : Function) (arguments : List Expr)

namespace Expr

/-- The reference that an expression consists of. -/
def asReference? : Expr → Option Reference
  | .reference r => some r
  | _ => none

/-- The number that an expression writes: a literal, with any number of minus signs. -/
def asNumber? : Expr → Option Float
  | .number x => some x
  | .negate e => e.asNumber?.map (- ·)
  | _ => none

/-- The references of an expression from left to right, one for each place that names it. -/
def references : Expr → List Reference
  | .number _ => []
  | .reference r => [r]
  | .negate e => e.references
  | .binary _ l r => l.references ++ r.references
  | .call _ es => referencesOfAll es
where
  /-- The references of several expressions. -/
  referencesOfAll : List Expr → List Reference
    | [] => []
    | e :: es => e.references ++ referencesOfAll es

end Expr

end MonthlyModel.Formula
