import MonthlyModel.Json.Value
import MonthlyModel.Model.Recompute
import MonthlyModel.Text

/-!
Model files: a timeline, inputs and calculations in JSON. A record is written as an object, whose
unknown members are passed over, or as an array of its fields from the first on. A file is read as a
whole before its content is checked.
-/

namespace MonthlyModel

/-- The timeline of a model file. -/
structure TimelineRecord where
  /-- The first month, as year and month. -/
  start : String
  periods : Nat
  /-- The last month of the fiscal year. -/
  fiscalEnd : Option Nat
deriving DecidableEq, Repr

/-- The content of a model file, read but not checked. -/
structure ModelFile where
  timeline : TimelineRecord
  inputs : List (String × Series Float)
  calculations : List Calculation

/-! ### Reading -/

namespace Json

/-- The value of a field, given the members of an object; a field is given once at most. -/
def memberOnce (name : String) (members : List (String × Json)) : Option (Option Json) :=
  match members.filter (·.1 == name) with
  | [] => some none
  | [(_, v)] => some (some v)
  | _ => none

/-- A member of an object, if its name is a text. -/
def namedMember (m : Option String × Json) : Option (String × Json) :=
  m.1.map (·, m.2)

/-- The fields of a record, each with its value if it is given. -/
def fields? (names : List String) : Json → Option (List (Option Json))
  | .object members => do
    let members ← members.mapM namedMember
    names.mapM fun name => memberOnce name members
  | .array items =>
    if items.length ≤ names.length then
      -- Fields that the array is too short for are not given.
      some (items.map some ++ List.replicate (names.length - items.length) none)
    else none
  | _ => none

/-- The text of a string. -/
def text? : Json → Option String
  | .string s => s
  | _ => none

/-- The double that a numeral writes. -/
def float? : Json → Option Float
  | .number n => n.toFloat?
  | _ => none

/-- A whole number below a limit. -/
def natBelow? (limit : Nat) : Json → Option Nat
  | .number n => n.natBelow? limit
  | _ => none

/-- A whole number of 32 bits. -/
def word? (j : Json) : Option UInt32 :=
  (j.natBelow? UInt32.size).map UInt32.ofNat

/-- The items of an array, all of one kind. -/
def list? {α : Type} (item? : Json → Option α) : Json → Option (List α)
  | .array items => items.mapM item?
  | _ => none

/-- A value or null. -/
def nullable {α : Type} (value? : Json → Option α) : Json → Option (Option α)
  | .null => some none
  | j => (value? j).map some

/-- A field that has to be given. -/
def required {α : Type} (value? : Json → Option α) (field : Option Json) : Option α :=
  field.bind value?

/-- A field with a value that stands for its absence. -/
def absentAs {α : Type} (absent : α) (value? : Json → Option α) : Option Json → Option α
  | none => some absent
  | some j => value? j

end Json

/-- The measure of a name. -/
def Measure.ofName? : String → Option Measure
  | "flow" => some .flow
  | "stock" => some .stock
  | "stock_start" => some .openingStock
  | _ => none

/-- A measure by name, alone or as the only member of an object, of which the value is null. -/
def Measure.ofJson? : Json → Option Measure
  | .string (some name) => ofName? name
  | .object [(some name, .null)] => ofName? name
  | _ => none

/-- The calculation that a record describes. -/
def Calculation.ofJson? (j : Json) : Option Calculation := do
  match ← j.fields? ["id", "tabId", "groupId", "name", "formula", "type"] with
  | [id, tab, group, name, formula, measure] =>
    return {
      id := ← Json.required Json.word? id
      tab := ← Json.absentAs none (Json.nullable Json.word?) tab
      group := ← Json.absentAs none (Json.nullable Json.word?) group
      name := ← Json.required Json.text? name
      formula := ← Json.absentAs "" Json.text? formula
      measure := ← Json.absentAs .flow Measure.ofJson? measure }
  | _ => none

/-- The timeline that a record describes. -/
def TimelineRecord.ofJson? (j : Json) : Option TimelineRecord := do
  match ← j.fields? ["start", "periods", "fiscalYearEndMonth"] with
  | [start, periods, fiscalEnd] =>
    return {
      start := ← Json.required Json.text? start
      periods := ← Json.required (Json.natBelow? UInt64.size) periods
      fiscalEnd := ← Json.absentAs none (Json.nullable (Json.natBelow? UInt32.size)) fiscalEnd }
  | _ => none

namespace ModelFile

/-- A series with the name of its member. -/
def namedSeries (m : Option String × Json) : Option (String × Series Float) := do
  return (← m.1, ← m.2.list? Json.float?)

/-- Series by name, in the order of the names; of several series of one name the last. -/
def inputsOfJson? : Json → Option (List (String × Series Float))
  | .object members => do
    return (Std.TreeMap.ofList (← members.mapM namedSeries)).toList
  | _ => none

/-- The model file that a record describes. -/
def ofJson? (j : Json) : Option ModelFile := do
  match ← j.fields? ["timeline", "inputs", "calculations"] with
  | [timeline, inputs, calculations] =>
    return {
      timeline := ← Json.required TimelineRecord.ofJson? timeline
      inputs := ← Json.absentAs [] inputsOfJson? inputs
      calculations := ← Json.absentAs [] (Json.list? Calculation.ofJson?) calculations }
  | _ => none

/-- The model file that a text writes. -/
def parse? (text : String) : Option ModelFile :=
  (Json.parse? text.toList).bind ofJson?

end ModelFile

/-! ### Checking -/

/-- What is wrong with the content of a model file. -/
inductive ModelFileFault where
  | start (text : String)
  | fiscalEnd (month : Nat)
  | input (key : String) (e : ModelError)
  | calculation (id : CalculationId) (e : ModelError)

/-- The digits at the front of a year, at most four of them without a sign, and what follows. -/
def takeYear : List Char → Option (Int × List Char)
  | '-' :: cs => takeSigned (-1) cs
  | '+' :: cs => takeSigned 1 cs
  | cs =>
    let ds := (cs.take 4).takeWhile Decimal.isDigit
    if ds.isEmpty then none else some (Decimal.ofDigits ds, cs.drop ds.length)
where
  /-- A year after its sign. -/
  takeSigned (sign : Int) (cs : List Char) : Option (Int × List Char) :=
    let ds := cs.takeWhile Decimal.isDigit
    if ds.isEmpty then none else some (sign * Decimal.ofDigits ds, cs.drop ds.length)

/-- A month of one or two digits that is the whole text, blanks before it aside. -/
def wholeMonth? (cs : List Char) : Option Nat :=
  let ds := Text.trimFront cs
  let month := Decimal.ofDigits ds
  if ds.all Decimal.isDigit ∧ ds.length ≤ 2 ∧ 1 ≤ month ∧ month ≤ 12 then some month else none

/-- The month that a text such as `2025-01` writes. Its year must be one whose days are counted. -/
def readMonth? (text : String) : Option (Int × Nat) := do
  match ← takeYear (Text.trim text.toList) with
  | (year, '-' :: rest) => if Calendar.isCounted year then return (year, ← wholeMonth? rest) else none
  | _ => none

/-- The timeline of a model file. -/
def TimelineRecord.build (r : TimelineRecord) : Except ModelFileFault Timeline :=
  match readMonth? r.start with
  | none => .error (.start r.start)
  | some (year, month) =>
    match r.fiscalEnd.filter fun m => m = 0 ∨ 12 < m with
    | some m => .error (.fiscalEnd m)
    | none => .ok (.consecutive (.ofYearMonth year month) r.periods)

namespace ModelFile

/-- A model with one input of the file. -/
def bindInput (m : Model) (input : String × Series Float) : Except ModelFileFault Model :=
  match m.setInput input.1 input.2 with
  | .ok m => .ok m
  | .error e => .error (.input input.1 e)

/-- A model with one calculation of the file. -/
def addCalculation (m : Model) (c : Calculation) : Except ModelFileFault Model :=
  match m.addCalculation c with
  | .ok m => .ok m
  | .error e => .error (.calculation c.id e)

/-- The model of a file, with nothing evaluated yet. -/
def build (f : ModelFile) : Except ModelFileFault Model := do
  let t ← f.timeline.build
  let m ← f.inputs.foldlM bindInput (Model.new t .standard)
  f.calculations.foldlM addCalculation m

end ModelFile

end MonthlyModel
