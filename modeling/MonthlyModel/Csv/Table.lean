import MonthlyModel.Csv.Record
import MonthlyModel.Decimal.Shortest
import MonthlyModel.Sheet.Export
import MonthlyModel.Text

/-!
Character-separated output: a record for each calculation with its reference, its name and a field for
each month, under a heading of months. Fields are quoted only where a mark or a line end asks for it.
-/

namespace MonthlyModel.Csv

/-- How output text is written. -/
structure WriteOptions where
  marks : Marks
  header : Bool
  /-- Whether a line feed follows a carriage return at line ends. -/
  carriageReturns : Bool

/-- Standard marks, a heading and plain line feeds. -/
def WriteOptions.standard : WriteOptions :=
  ⟨.standard, true, false⟩

/-- A row of output: a reference, a name and a field for each month. -/
structure Row where
  key : String
  name : String
  cells : List String

/-- The character of an ASCII byte. -/
def markChar (b : UInt8) : Char :=
  Char.ofNat b.toNat

/-- Whether a character keeps a field from being written as it is. -/
def needsQuotes (m : Marks) (c : Char) : Bool :=
  c = markChar m.delimiter || c = markChar m.quote || c = '\n' || c = '\r'

/-- A field of a record. -/
def fieldText (m : Marks) (field : String) : List Char :=
  if field.toList.any (needsQuotes m) then Text.quoted (markChar m.quote) field.toList else field.toList

/-- A record of at least two fields, with its line end. -/
def recordText (o : WriteOptions) (fields : List String) : List Char :=
  [markChar o.marks.delimiter].intercalate (fields.map (fieldText o.marks)) ++
    if o.carriageReturns then ['\r', '\n'] else ['\n']

/-- The text of rows under the headings of their months. -/
def write (o : WriteOptions) (labels : List String) (rows : List Row) : String :=
  let heading := if o.header then [["key", "name"] ++ labels] else []
  String.ofList ((heading ++ rows.map fun r => [r.key, r.name] ++ r.cells).flatMap (recordText o))

/-- The row of a series. -/
def Row.ofSeries (key name : String) (values : Series Float) : Row :=
  ⟨key, name, values.map Decimal.text⟩

/-- The content of an exported cell. -/
def cellContent (home : String) : Sheet.ExportCell → String
  | .formula f => f.content home
  | .value x => Decimal.text x

/-- The row of an exported calculation. -/
def Row.ofExport (r : Sheet.ExportRow) : Row :=
  ⟨(Reference.calculation r.id).text, r.name, r.cells.map (cellContent r.place.sheet)⟩

/-- The text of an export. -/
def writeExport (o : WriteOptions) (labels : List String) (p : Sheet.ExportPlan) : String :=
  write o labels (p.rows.map .ofExport)

end MonthlyModel.Csv
