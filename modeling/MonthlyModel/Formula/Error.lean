import MonthlyModel.Formula.Function
import MonthlyModel.Formula.Token

/-!
What can be wrong with a formula: its text, the functions and references it names, its place among
the other calculations, and the series it is evaluated over.
-/

namespace MonthlyModel

namespace Formula

/-- What keeps a text from being an expression. -/
inductive Malformation where
  | empty
  /-- The text ends inside of brackets. -/
  | unclosed (count : Nat)
  /-- A closing bracket that no opening bracket belongs to. -/
  | unopened
  /-- A word that is no reference and that no opening bracket follows. -/
  | unknownWord (name : String)
  /-- The text ends where an operand is missing. -/
  | unfinished
  /-- A token that starts no operand. -/
  | noOperand (t : Token)
  /-- A token that goes on after a whole expression. -/
  | trailing (t : Token)
  /-- A token inside of brackets that neither goes on with the expression nor closes it. -/
  | notClosing (t : Token)
  /-- An offset of a shift that is not one whole number in all months. -/
  | shiftOffset
deriving DecidableEq

/-- What is wrong, as it follows the words `Syntax error`. -/
def Malformation.message : Malformation → String
  | .empty => "empty formula"
  | .unclosed n => s!"unbalanced parentheses: {n} unclosed '('"
  | .unopened => "unbalanced parentheses: unexpected ')'"
  | .unknownWord name => s!"unknown token '{name}'"
  | .unfinished => "unexpected end of formula"
  | .noOperand t => s!"unexpected {t.describe}"
  | .trailing t => s!"unexpected {t.describe} after expression"
  | .notClosing t => s!"expected ')', got {t.describe}"
  | .shiftOffset => "SHIFT offset must be a constant whole number"

/-- Broad classes of errors, as they are shown next to a calculation. -/
inductive ErrorKind where
  | malformed
  | reference
  | dependency
  | runtime
  | conversion
deriving DecidableEq, Repr

/-- The class in a list of errors. -/
def ErrorKind.title : ErrorKind → String
  | .malformed => "Syntax"
  | .reference => "Reference"
  | .dependency => "Dependency"
  | .runtime => "Runtime"
  | .conversion => "Conversion"

/-- The argument counts of a function, as far as a wrong count is on the far side of them. -/
def Function.expected (f : Function) (count : Nat) : String :=
  -- A wrong count that is not too small is too large, so there is a greatest one.
  if count < f.fewest then s!"at least {f.fewest}" else s!"at most {f.most?.getD f.fewest}"

/-- The calculations of a cycle, each read by some other one. -/
def cycleText (ids : List CalculationId) : String :=
  " -> ".intercalate (ids.map fun id => (Reference.calculation id).text)

end Formula

open Formula

/-- Why a formula has no value. -/
inductive FormulaError where
  | malformed (m : Malformation)
  | unknownFunction (name : String)
  | argumentCount (f : Function) (count : Nat)
  | unknownReference (r : Reference)
  /-- The calculation is a member of a cycle. -/
  | circular (cycle : List CalculationId)
  /-- The formula would make its calculation a member of a cycle. -/
  | selfDependent (id : CalculationId)
  /-- A series that is longer or shorter than the timeline. -/
  | seriesLength (r : Reference) (actual expected : Nat)
deriving DecidableEq

namespace FormulaError

/-- The class of an error. -/
def kind : FormulaError → ErrorKind
  | .malformed _ | .unknownFunction _ | .argumentCount .. => .malformed
  | .unknownReference _ => .reference
  | .circular _ | .selfDependent _ => .dependency
  | .seriesLength .. => .runtime

/-- The error as a user reads it. -/
def message : FormulaError → String
  | .malformed m => s!"Syntax error: {m.message}"
  | .unknownFunction name => s!"Unknown function: {name}"
  | .argumentCount f n =>
    s!"Wrong number of arguments for {f.name}: expected {f.expected n}, got {n}"
  | .unknownReference r => s!"Unknown reference: {r.text}"
  | .circular ids => s!"Circular reference: {cycleText ids}"
  | .selfDependent id =>
    s!"Circular reference: {(Reference.calculation id).text} would depend on itself"
  | .seriesLength r n m => s!"Runtime error: {r.text} has {n} periods, expected {m}"

end FormulaError

end MonthlyModel
