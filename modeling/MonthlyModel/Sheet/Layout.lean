import MonthlyModel.Reference.Order
import MonthlyModel.Sheet.Column
import Std.Data.TreeMap

/-!
Sheet layouts: every placed reference has a row on a sheet, and all rows share the columns of the
months. A builder hands out the rows of each sheet one after another. Columns are counted in 32 bits;
rows are counted without end, which is the same for all rows that 32 bits hold.
-/

namespace MonthlyModel.Sheet

/-- A row of a sheet. -/
structure CellRow where
  sheet : String
  /-- Rows count from 1. -/
  row : Nat
deriving DecidableEq, Repr

/-- Rows by reference, and the column of the first month. -/
structure Layout where
  /-- The column of the first month; columns count from 1. -/
  firstColumn : Nat
  rows : Std.TreeMap Reference CellRow

namespace Layout

/-- The layout without rows; labels stand in the first four columns. -/
def empty : Layout :=
  ⟨5, ∅⟩

instance : Inhabited Layout :=
  ⟨empty⟩

/-- A layout whose first month stands in a column; columns count from 1. -/
def withFirstColumn (l : Layout) (column : Nat) : Layout :=
  { l with firstColumn := max column 1 }

/-- The column of a month. -/
def column (l : Layout) (position : Nat) : Nat :=
  columnAfter l.firstColumn position

theorem column_eq {l : Layout} {position : Nat} (h : l.firstColumn + position < UInt32.size) :
    l.column position = l.firstColumn + position :=
  columnAfter_eq h

/-- A layout in which a reference has a row. -/
def insert (l : Layout) (r : Reference) (row : CellRow) : Layout :=
  { l with rows := l.rows.insert r row }

/-- The row of a reference. -/
def get? (l : Layout) (r : Reference) : Option CellRow :=
  l.rows[r]?

/-- Whether a reference has a row. -/
def contains (l : Layout) (r : Reference) : Bool :=
  (l.get? r).isSome

/-- The number of placed references. -/
def size (l : Layout) : Nat :=
  l.rows.size

end Layout

/-- A layout in the making. -/
structure LayoutBuilder where
  layout : Layout
  /-- The first row of a sheet on which nothing has been placed. -/
  startRow : Nat
  /-- The next free row of the other sheets. -/
  nextRow : Std.TreeMap String Nat

namespace LayoutBuilder

/-- Nothing is placed; the first row of each sheet is left to headings. -/
def empty : LayoutBuilder :=
  ⟨.empty, 2, ∅⟩

instance : Inhabited LayoutBuilder :=
  ⟨empty⟩

/-- A builder that starts other sheets at a row; rows count from 1. -/
def withStartRow (b : LayoutBuilder) (row : Nat) : LayoutBuilder :=
  { b with startRow := max row 1 }

/-- A builder whose first month stands in a column; columns count from 1. -/
def withFirstColumn (b : LayoutBuilder) (column : Nat) : LayoutBuilder :=
  { b with layout := b.layout.withFirstColumn column }

/-- The row that the next reference on a sheet gets. -/
def freeRow (b : LayoutBuilder) (sheet : String) : Nat :=
  b.nextRow.getD sheet b.startRow

/-- Places a reference in the next row of a sheet. A reference that has a row leaves it, and the row
stays free. -/
def place (b : LayoutBuilder) (r : Reference) (sheet : String) : LayoutBuilder :=
  { b with
    layout := b.layout.insert r ⟨sheet, b.freeRow sheet⟩
    nextRow := b.nextRow.insert sheet (b.freeRow sheet + 1) }

end LayoutBuilder

end MonthlyModel.Sheet
