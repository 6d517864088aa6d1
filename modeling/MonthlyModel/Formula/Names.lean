import MonthlyModel.Formula.Token
import MonthlyModel.Reference.Order
import Std.Data.TreeSet

/-!
The references that a text names, read off its tokens. The text need not be a formula, so a broken
formula still knows what it depends on.
-/

namespace MonthlyModel.Formula

/-- The reference that a token is. -/
def Token.reference? : Token → Option Reference
  | .reference r => some r
  | _ => none

/-- The references of a text from left to right, one for each place that names it. -/
def occurrences (cs : List Char) : List Reference :=
  (tokens cs).filterMap Token.reference?

/-- The different references of a text, in order. -/
def namedReferences (cs : List Char) : List Reference :=
  (Std.TreeSet.ofList (occurrences cs)).toList

/-- The calculations that a text names, in order. -/
def namedCalculations (cs : List Char) : List CalculationId :=
  (namedReferences cs).filterMap Reference.calculation?

end MonthlyModel.Formula
