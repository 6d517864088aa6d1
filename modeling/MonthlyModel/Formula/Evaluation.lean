import MonthlyModel.Formula.Parser
import MonthlyModel.Formula.Temporal
import MonthlyModel.SeriesMap

/-!
Evaluation of formulas over a whole timeline: every expression has one value for each month. A
formula that cannot be evaluated has zeros and an error.
-/

namespace MonthlyModel.Formula

variable {α : Type} [Arithmetic α]

/-- What a formula is evaluated over: the months, the bound series and the results of other
calculations. -/
structure Context (α : Type) where
  timeline : Timeline
  series : SeriesMap α
  results : CalculationId → Option (Series α)

namespace Context

/-- The number of values of every series. -/
def periods (c : Context α) : Nat :=
  c.timeline.length

/-- The series bound to a reference. The result of a calculation comes before a series that is bound
under the same name. -/
def bound? (c : Context α) (r : Reference) : Option (Series α) :=
  (r.calculation?.bind c.results).or (c.series.get? r)

/-- The series of a time constant, if the reference names one. -/
def constant? (c : Context α) (r : Reference) : Option (Series α) :=
  if r.family = .timeConstant then
    (r.name.bind TimeConstant.ofName?).map fun k => (c.timeline.constant k).map Arithmetic.ofNat
  else none

/-- The series that a reference stands for. Time constants need not be bound. -/
def resolve (c : Context α) (r : Reference) : Except FormulaError (Series α) :=
  -- A series that is bound under the name of a time constant stands for it.
  match (c.bound? r).or (c.constant? r) with
  | none => .error (.unknownReference r)
  | some s => if s.length = c.periods then .ok s else .error (.seriesLength r s.length c.periods)

end Context

/-- For every month the values of several series in it. -/
def columns (periods : Nat) (series : List (Series α)) : List (List α) :=
  series.foldr (List.zipWith List.cons) (List.replicate periods [])

/-- The one whole number that all values of a series are. -/
def constantOffset? : Series α → Option Int
  | [] => none
  | x :: xs => do
    let offset ← Arithmetic.whole? x
    if xs.all (Arithmetic.whole? · == some offset) then some offset else none

/-- A series shifted by the number that another one repeats. Without months there is nothing to
shift. -/
def shiftBy (xs offsets : Series α) : Except FormulaError (Series α) :=
  if offsets.isEmpty then .ok xs
  else
    match constantOffset? offsets with
    | some offset => .ok (shift xs offset)
    | none => .error (.malformed .shiftOffset)

/-- The value of a function over a timeline for the series of its arguments. -/
def Function.apply (t : Timeline) (f : Function) (arguments : List (Series α)) :
    Except FormulaError (Series α) :=
  let xs := arguments.headD []
  match f with
  | .abs => .ok (xs.map Arithmetic.magnitude)
  | .max => .ok ((columns t.length arguments).map Arithmetic.largest)
  | .min => .ok ((columns t.length arguments).map Arithmetic.smallest)
  | .count => .ok (running countStep 0 xs)
  | .cumprod => .ok (running (· * ·) 1 xs)
  | .cumprodByYear => .ok (runningByYear (· * ·) 1 t.yearStarts xs)
  | .cumsum => .ok (running (· + ·) 0 xs)
  | .cumsumByYear => .ok (runningByYear (· + ·) 0 t.yearStarts xs)
  | .prevsum => .ok (Formula.shift (running (· + ·) 0 xs) 1)
  | .prevval => .ok (Formula.shift xs 1)
  | .shift => shiftBy xs (arguments.getD 1 [])

/-- The value of an expression. Operands and arguments are evaluated from left to right, and the
first error is the error of the whole. -/
def evaluate (c : Context α) : Expr → Except FormulaError (Series α)
  | .number x => .ok (List.replicate c.periods (Arithmetic.literal x))
  | .reference r => c.resolve r
  | .negate e => do return (← evaluate c e).map (- ·)
  | .binary o l r => do
    let ls ← evaluate c l
    let rs ← evaluate c r
    return List.zipWith o.apply ls rs
  | .call f es =>
    -- A wrong number of arguments is reported before any error in them.
    if f.takes es.length then do f.apply c.timeline (← evaluateAll c es)
    else .error (.argumentCount f es.length)
where
  /-- The values of several expressions. -/
  evaluateAll (c : Context α) : List Expr → Except FormulaError (List (Series α))
    | [] => .ok []
    | e :: es => do
      let s ← evaluate c e
      return s :: (← evaluateAll c es)

/-- What evaluating a formula gives: values in any case, and an error if they stand for none. -/
structure Evaluation (α : Type) where
  values : Series α
  error : Option FormulaError

/-- Zeros in place of values that there are none of. -/
def Evaluation.failed (periods : Nat) (e : FormulaError) : Evaluation α :=
  ⟨List.replicate periods 0, some e⟩

/-- The value of an expression, or its error with zeros. -/
def Evaluation.ofExcept (periods : Nat) : Except FormulaError (Series α) → Evaluation α
  | .ok values => ⟨values, none⟩
  | .error e => .failed periods e

/-- A text without a formula: nothing, or an equals sign with nothing after it. -/
def isBlankFormula (cs : List Char) : Bool :=
  (body cs).all Text.isBlank

/-- The value of a formula. No formula at all has the value zero and no error. -/
def evaluateText (c : Context α) (cs : List Char) : Evaluation α :=
  if isBlankFormula cs then ⟨List.replicate c.periods 0, none⟩
  else .ofExcept c.periods (parse cs >>= evaluate c)

end MonthlyModel.Formula
