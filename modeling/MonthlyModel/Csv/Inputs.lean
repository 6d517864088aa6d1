import MonthlyModel.Csv.Record
import MonthlyModel.Decimal.Numeral
import MonthlyModel.SeriesMap
import MonthlyModel.Text

/-!
Input series from character-separated text: a record names a reference and gives its values. The time
constants of the timeline are bound from the start, and a record may replace them; any other reference
may be named once. The first record with a fault is reported.
-/

namespace MonthlyModel.Csv

/-- How input text is read. -/
structure ReadOptions where
  marks : Marks
  /-- Whether the first record is a heading. -/
  header : Bool
  /-- Whether blanks at the ends of fields are dropped. -/
  trims : Bool

/-- Standard marks, no heading, blanks dropped. -/
def ReadOptions.standard : ReadOptions :=
  ⟨.standard, false, true⟩

/-- What is wrong with a field. -/
inductive FieldFault where
  | reference (e : ReferenceError)
  | duplicate (r : Reference)
  | notNumber (text : String)
deriving DecidableEq, Repr

/-- The fault as a user reads it. -/
def FieldFault.message : FieldFault → String
  | .reference e => e.message
  | .duplicate r => s!"duplicate key {r.text}"
  | .notNumber text => s!"'{text}' is not a number"

/-- What is wrong with input text. -/
inductive InputFault where
  /-- A field is no text. -/
  | undecodable
  /-- A fault in a field; records and fields count from 1, a heading among the records. -/
  | field (row column : Nat) (fault : FieldFault)
  | length (e : LengthMismatch)
deriving DecidableEq, Repr

/-- The fault with its place in the text. -/
def InputFault.message : InputFault → String
  | .undecodable => "CSV error: a field is not valid UTF-8"
  | .field row column fault => s!"Parse error at row {row}, column {column}: {fault.message}"
  | .length e => s!"Core error: {e.message}"

/-- The characters of a field, if its bytes are a text. -/
def decode (o : ReadOptions) (bs : List UInt8) : Option (List Char) :=
  (String.fromUTF8? ⟨bs.toArray⟩).map fun s => if o.trims then Text.trim s.toList else s.toList

/-- The value in a field; an empty field is zero. -/
def fieldValue (row column : Nat) (cs : List Char) : Except InputFault Float :=
  if cs.isEmpty then .ok 0
  else
    match Decimal.read? cs with
    | some x => .ok x
    | none => .error (.field row column (.notNumber (String.ofList cs)))

/-- The values in the fields from a column on. -/
def fieldValues (row column : Nat) : List (List Char) → Except InputFault (Series Float)
  | [] => .ok []
  | cs :: rest => do
    let x ← fieldValue row column cs
    return x :: (← fieldValues row (column + 1) rest)

/-- The reference in a field. It must be free, unless it is a time constant. -/
def fieldReference (m : SeriesMap Float) (row : Nat) (cs : List Char) : Except InputFault Reference :=
  match Reference.parse (String.ofList cs) with
  | .error e => .error (.field row 1 (.reference e))
  -- Only time constants have names. They are bound before any record is read.
  | .ok r => if m.contains r && r.name.isNone then .error (.field row 1 (.duplicate r)) else .ok r

/-- Binds what a record names. -/
def addRecord (m : SeriesMap Float) (row : Nat) (fields : List (List Char)) :
    Except InputFault (SeriesMap Float) := do
  let r ← fieldReference m row (fields.headD [])
  let values ← fieldValues row 2 fields.tail
  match m.insert r values with
  | .ok m => return m
  | .error e => throw (.length e)

/-- Binds what records name, each decoded in its turn. -/
def addRecords (o : ReadOptions) (m : SeriesMap Float) (row : Nat) :
    List (List (List UInt8)) → Except InputFault (SeriesMap Float)
  | [] => .ok m
  | record :: rest =>
    match record.mapM (decode o) with
    | none => .error .undecodable
    | some fields => do addRecords o (← addRecord m row fields) (row + 1) rest

/-- The series that a text binds over a timeline, time constants among them. -/
def readInputs (o : ReadOptions) (t : Timeline) (bs : List UInt8) : Except InputFault (SeriesMap Float) :=
  let all := records o.marks (withoutByteOrderMark bs)
  -- The heading is a record, too, where records are counted.
  if o.header then addRecords o (.ofTimeline t) 2 all.tail else addRecords o (.ofTimeline t) 1 all

end MonthlyModel.Csv
