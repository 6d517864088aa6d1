import MonthlyModel.Command.Arguments
import MonthlyModel.Command.Program
import MonthlyModel.Decimal.Fixed
import MonthlyModel.Model.Files
import MonthlyModel.ModelFile

/-!
What the commands do: evaluating a model and printing its results, exporting it, listing the
references of a formula and checking a formula.
-/

namespace MonthlyModel.Command

/-- Why a command ends without a result. -/
structure Failure where
  text : String
  cause : Option String

/-- A text of which every line but the first is indented. -/
def indented (s : String) : String :=
  "\n    ".intercalate (s.splitOn "\n")

/-- The failure as it is printed, its cause in lines of its own. -/
def Failure.message (f : Failure) : String :=
  match f.cause with
  | none => s!"Error: {f.text}\n"
  | some cause => s!"Error: {f.text}\n\nCaused by:\n    {indented cause}\n"

/-- Reports a failure and ends with code 1. -/
def fail (f : Failure) : Program :=
  .report f.message (.done 1)

/-- Goes on with a result, or ends with its failure. -/
def orFail {α : Type} (result : Except Failure α) (next : α → Program) : Program :=
  match result with
  | .ok a => next a
  | .error f => fail f

/-! ### Loading -/

/-- The failure that a fault in a model file leads to. -/
def ModelFileFault.failure : ModelFileFault → Failure
  | .start text => ⟨s!"Invalid timeline start '{text}', expected YYYY-MM", some "input contains invalid characters"⟩
  | .fiscalEnd month => ⟨s!"Invalid fiscal year end month {month}", none⟩
  | .input key e => ⟨s!"Invalid input '{key}'", some e.message⟩
  | .calculation id e => ⟨s!"Invalid calculation {(Reference.calculation id).text}", some e.message⟩

/-- The model file in a file. -/
def readModelFile (path : String) (content : Except FileError (List UInt8)) : Except Failure ModelFile :=
  let unread (cause : String) : Except Failure ModelFile := .error ⟨s!"Failed to read '{path}'", some cause⟩
  match content with
  | .error e => unread e.message
  | .ok bytes =>
    match String.fromUTF8? ⟨bytes.toArray⟩ with
    | none => unread "stream did not contain valid UTF-8"
    | some text =>
      match ModelFile.parse? text with
      | some file => .ok file
      | none => .error ⟨s!"Failed to parse model file '{path}'", some "the text is not a model"⟩

/-- The model of a file, or the failure that it is none. -/
def buildModel (file : ModelFile) : Except Failure Model :=
  file.build.mapError ModelFileFault.failure

/-- A model with the inputs of a file. -/
def bindInputs (m : Model) (path : String) (content : Except FileError (List UInt8)) : Except Failure Model :=
  let unread (cause : String) : Except Failure Model := .error ⟨s!"Failed to read inputs '{path}'", some cause⟩
  match content with
  | .error .isDirectory => unread s!"CSV error: {FileError.isDirectory.message}"
  | .error e => unread s!"IO error: {e.message}"
  | .ok bytes =>
    match m.loadInputs bytes with
    | .ok (m, _) => .ok m
    | .error e => unread e.message

/-- Recomputes a model that was loaded, and tells of errors. -/
def settle (m : Model) (next : Model → Program) : Program :=
  let (m, stats) := m.recomputeAll
  if 0 < stats.errors then
    .report s!"Evaluated {stats.calculations} calculations ({stats.errors} errors)\n" (next m)
  else next m

/-- Loads a model with its inputs, and goes on with it and the last month of its fiscal year. -/
def load (path : String) (inputs : Option String) (next : Model → Option Nat → Program) : Program :=
  .read path fun content =>
    orFail (readModelFile path content) fun file =>
      orFail (buildModel file) fun m =>
        match inputs with
        | none => settle m (next · file.timeline.fiscalEnd)
        | some path =>
          .read path fun content =>
            orFail (bindInputs m path content) fun m => settle m (next · file.timeline.fiscalEnd)

/-! ### Evaluation -/

/-- A number in a listing: whole numbers as such, others with four decimal places. -/
def numberText (x : Float) : String :=
  match Decimal.whole? x with
  | some n => if n.natAbs < Nat.pow 10 15 then String.ofList (Decimal.intDigits n) else Decimal.fixed x 4
  | none => Decimal.fixed x 4

/-- Fields with tabs between them. -/
def line (fields : List String) : String :=
  "\t".intercalate fields ++ "\n"

/-- The granularity of display periods. Fiscal years end with the calendar year unless the file says so. -/
def Display.granularity (d : Display) (fiscalEnd : Option Nat) : Granularity :=
  match d with
  | .monthly => .monthly
  | .quarterly => .quarterly
  | .annual => .annual
  | .fiscal => .fiscal (fiscalEnd.getD 12)

/-- The calculation that a label selects. -/
def select (m : Model) (label : String) : Except Failure CalculationId :=
  match Reference.parse (String.ofList (Text.trim label.toList)) with
  | .error e => .error ⟨s!"Invalid calculation reference '{label}'", some e.message⟩
  | .ok r =>
    match r.calculation? with
    | none => .error ⟨s!"'{label}' is not a calculation reference", none⟩
    | some id => if m.contains id then .ok id else .error ⟨s!"Calculation {label} not found", none⟩

/-- A result of the model, or the failure that there is none. -/
def ofModel {α : Type} (result : Except ModelError α) : Except Failure α :=
  result.mapError fun e => ⟨e.message, none⟩

/-- The line of a calculation: its reference, its name, its values and their total. -/
def calculationLine (m : Model) (groups : List PeriodGroup) (c : Calculation) : Except Failure String := do
  let a ← ofModel (m.aggregate c.id groups)
  let values := "\t".intercalate (a.periods.map fun p => numberText p.value)
  return line [c.label, c.name, values, numberText a.total]

/-- The listing of a model, or of one calculation of it. -/
def listing (m : Model) (groups : List PeriodGroup) (selected : Option CalculationId) :
    Except Failure String := do
  let shown := m.calculations.filter fun c => selected.all (· == c.id)
  let lines ← shown.mapM (calculationLine m groups)
  return String.join (line ["key", "name", "\t".intercalate (groups.map (·.label)), "total"] :: lines)

/-- The line of a failed calculation. -/
def diagnosticLine (d : Diagnostic) : String :=
  s!"{d.label} ({d.name}): {d.kind.title} error: {d.message}\n"

/-- The errors of a model, or of one calculation of it. -/
def complaints (m : Model) (selected : Option CalculationId) : Except Failure String := do
  let shown := (← ofModel m.diagnostics).filter fun d => selected.all (· == d.id)
  return String.join (shown.map diagnosticLine)

/-- Prints the listing of a model and reports what has failed. -/
def evaluateModel (m : Model) (fiscalEnd : Option Nat) (d : Display) (label : Option String) : Program :=
  orFail (label.mapM (select m)) fun selected =>
    let groups := m.timeline.groupings (d.granularity fiscalEnd)
    orFail (listing m groups selected) fun output =>
      orFail (complaints m selected) fun messages => .print output (.report messages (.done 0))

/-! ### Export -/

/-- The bound series on one sheet and the calculations on another, each in a row of its own. -/
def exportLayout (m : Model) (sheet inputSheet : String) : Sheet.Layout :=
  let inputs := m.series.keys.foldl (fun b r => b.place r inputSheet) Sheet.LayoutBuilder.empty
  (m.calculations.foldl (fun b c => b.place c.reference sheet) inputs).layout

/-- How much of an export is formulas. -/
def coverageLine (p : Sheet.ExportPlan) : String :=
  let share := Decimal.fixed (p.coverage * 100) 1
  s!"Exported {p.stats.calculations} calculations: {p.formulaCells} formula cells, {p.valueCells} static cells ({share}% formulas, {p.degradedRows} degraded)\n"

/-- Writes the export of a model to a file, or prints it. -/
def exportModel (m : Model) (sheet inputSheet : String) (output : Option String) : Program :=
  match m.exportText (exportLayout m sheet inputSheet), output with
  | .error e, none => fail ⟨e.message, none⟩
  | .error e, some path => fail ⟨s!"Failed to write '{path}'", some e.message⟩
  | .ok (plan, text), none => .print text (.report (coverageLine plan) (.done 0))
  | .ok (plan, text), some path =>
    .write path text fun
      | .ok () => .report (coverageLine plan) (.done 0)
      | .error e => fail ⟨s!"Failed to write '{path}'", some s!"IO error: {e.message}"⟩

/-! ### Formulas -/

/-- The references of a formula, one on a line. -/
def referenceLines (formula : String) : String :=
  String.join ((Formula.namedReferences formula.toList).map fun r => line [r.text, r.family.title])

/-- What becomes of a formula in an export. -/
def verdict (formula : String) : String :=
  let cs := formula.toList
  if Formula.isBlankFormula cs then "convertible: blank formula exports as =0"
  else
    match Formula.parse cs with
    | .error e => s!"invalid: {e.message}"
    | .ok _ =>
      if Sheet.canConvert cs then "convertible" else "not convertible: exported as static values"

/-- What is done for a request. -/
def Request.program : Request → Program
  | .evaluate model inputs display label =>
    load model inputs fun m fiscalEnd => evaluateModel m fiscalEnd display label
  | .export model inputs sheet inputSheet output =>
    load model inputs fun m _ => exportModel m sheet inputSheet output
  | .references formula => .print (referenceLines formula) (.done 0)
  | .check formula => .print (verdict formula ++ "\n") (.done 0)

/-- What a command line does. A wrong one ends with code 2. -/
def program (arguments : List String) : Program :=
  match parseArguments arguments with
  | .ok request => request.program
  | .error .help => .done 0
  | .error .wrong => .done 2

end MonthlyModel.Command
