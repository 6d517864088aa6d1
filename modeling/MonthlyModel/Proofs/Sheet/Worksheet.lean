import Mathlib
import MonthlyModel.Proofs.Sheet.Meaning

/-! Spreadsheets that end: the cells right of some column are empty.

Operators read an empty cell as zero. Functions pass over it, and a function that is left with no number
gives zero. -/

namespace MonthlyModel.Sheet

open MonthlyModel.Formula (Operator tabulate countStep)

variable {α : Type} [Arithmetic α]

/-! ### Values with empty cells -/

/-- The fold of the numbers that are there; zero if there are none. -/
def overPresent (fold : List α → α) (xs : List α) : α :=
  if xs.isEmpty then 0 else fold xs

namespace Value

/-- What an operator reads. -/
def operand : Value α → Value α
  | .cells [] => .number 0
  | v => v

/-- The value of a function in a cell of a column. Of the functions only ABS reads its argument as
    operators do. -/
def applyPresent (column : Nat) (name : String) (vs : List (Value α)) : Value α :=
  if name = "ABS" then .apply column name (vs.map operand)
  else if !vs.isEmpty && (allItems vs).any List.isEmpty then .number 0
  else .apply column name vs

/-- A value is one number, or an empty cell in the place of one. -/
inductive Holds : Option α → Value α → Prop where
  | empty : Holds none (.cells [])
  | filled {x : α} {v : Value α} (h : v.Is x) : Holds (some x) v

theorem Holds.operand {x : Option α} {v : Value α} (h : Holds x v) : v.operand.Is (x.getD 0) := by
  cases h with
  | empty => exact .number
  | filled h => cases h <;> constructor

theorem Holds.items {x : Option α} {v : Value α} (h : Holds x v) : v.items = some x.toList := by
  cases h with
  | empty => rfl
  | filled h => exact h.items

theorem Holds.allItems {xs : List (Option α)} {vs : List (Value α)} (h : List.Forall₂ Holds xs vs) :
    Value.allItems vs = some xs.reduceOption := by
  have hitems : vs.mapM Value.items = some (xs.map Option.toList) := by
    induction h with
    | nil => rfl
    | cons hx _ ih => simp [List.mapM_cons, hx.items, ih]
  rw [Value.allItems, hitems, Option.map_some, List.reduceOption, ← List.flatMap_def, List.filterMap_eq_flatMap_toList]
  rfl

theorem allItems_cons (v : Value α) (vs : List (Value α)) :
    allItems (v :: vs) = v.items.bind fun xs => (allItems vs).map (xs ++ ·) := by
  cases hv : v.items <;> cases hvs : vs.mapM items <;> simp [allItems, List.mapM_cons, hv, hvs]

theorem items_of_allItems {vs : List (Value α)} (h : allItems vs = some []) : ∀ v ∈ vs, v.items = some [] := by
  induction vs with
  | nil => simp
  | cons v vs ih =>
    rw [allItems_cons, Option.bind_eq_some_iff] at h
    obtain ⟨xs, hv, h⟩ := h
    obtain ⟨ys, hvs, h⟩ := Option.map_eq_some_iff.mp h
    obtain ⟨rfl, rfl⟩ := List.append_eq_nil_iff.mp h
    exact List.forall_mem_cons.mpr ⟨hv, ih hvs⟩

/-- Where something is left, a function has the value that it has on any spreadsheet. -/
theorem applyPresent_eq {column : Nat} {name : String} {v : Value α} {vs : List (Value α)} (hname : name ≠ "ABS")
    (hv : v ∈ vs) (h : v.items ≠ some []) : applyPresent column name vs = .apply column name vs := by
  rw [applyPresent, if_neg hname, if_neg]
  simp only [Bool.and_eq_true, Option.any_eq_true, List.isEmpty_iff]
  rintro ⟨-, _, hitems, rfl⟩
  exact h (items_of_allItems hitems v hv)

/-- A function that folds its arguments gives zero where there is nothing to fold. -/
theorem applyPresent_fold {column : Nat} {name : String} {fold : List α → α} {vs : List (Value α)} {xs : List α}
    (hname : name ≠ "ABS") (happly : ∀ vs, Value.apply column name vs = .ofOption ((allItems vs).map fold))
    (hvs : vs ≠ []) (hitems : allItems vs = some xs) :
    applyPresent column name vs = .number (overPresent fold xs) := by
  rw [applyPresent, if_neg hname, happly, hitems, overPresent]
  cases xs <;> simp [hvs, ofOption]

end Value

/-! ### Worksheets -/

/-- A spreadsheet without numbers right of a column. -/
structure Worksheet (α : Type) extends Spreadsheet α where
  lastColumn : Nat

namespace Worksheet

/-- The value of a term in a cell of a column. -/
def value (w : Worksheet α) (column : Nat) : Term → Value α
  | .numeral cs => .number (w.numeral cs)
  | .text cs => .text cs
  | .area a => .cells (w.area { a with lastColumn := min a.lastColumn w.lastColumn })
  | .negate t => .ofOption ((w.value column t).operand.scalar.map (- ·))
  | .binary o l r => .operate o (w.value column l).operand (w.value column r).operand
  | .call name ts => .applyPresent column (String.ofList name) (values w column ts)
where
  /-- The values of several terms. -/
  values (w : Worksheet α) (column : Nat) : List Term → List (Value α)
    | [] => []
    | t :: ts => w.value column t :: values w column ts

/-- The number that the content of a cell stands for, on a sheet and in a column. -/
def cellValue? (w : Worksheet α) (home : String) (column : Nat) (content : String) : Option α :=
  (readFormula home content).bind fun t => (w.value column t).operand.scalar

variable {w : Worksheet α} {column : Nat} {t u : Term} {x y : Option α}

/-! ### Operators -/

theorem value_signed (w : Worksheet α) (column : Nat) (cs : List Char) :
    w.value column (signed cs) = w.toSpreadsheet.value column (signed cs) := by
  unfold signed
  split <;> rfl

theorem value_negate (ht : (w.value column t).Holds x) : w.value column (.negate t) = .number (- x.getD 0) := by
  rw [value, ht.operand.scalar]
  rfl

theorem value_binary (o : Operator) (ht : (w.value column t).Holds x) (hu : (w.value column u).Holds y) :
    w.value column (.binary o t u) = .compute o (x.getD 0) (y.getD 0) := by
  rw [value, Value.operate, ht.operand.scalar, hu.operand.scalar]

theorem value_operationTerm (h : Exact α) (hw : w.Counts) (o : Operator) (ht : (w.value column t).Holds x)
    (hu : (w.value column u).Holds y) :
    w.value column (operationTerm o t u) = .number (o.apply (x.getD 0) (y.getD 0)) := by
  have hv := value_binary o ht hu
  have hzero : w.value column (.numeral ['0']) = .number 0 := by
    change w.toSpreadsheet.value column (.numeral ['0']) = _
    exact Spreadsheet.value_zero h hw
  have hone : w.value column (.numeral ['1']) = .number 1 := by
    change w.toSpreadsheet.value column (.numeral ['1']) = _
    exact Spreadsheet.value_one h hw
  cases o with
  | divide =>
    change Value.applyPresent column (String.ofList "IFERROR".toList)
      [w.value column (.binary .divide t u), w.value column (.numeral ['0'])] = _
    have hitems : (Value.number (0 : α)).items ≠ some [] := by simp [Value.items]
    rw [String.ofList_toList, hv, hzero, Value.applyPresent_eq (by decide) (by simp) hitems, Value.apply_compute_divide]
  | equal | less | atMost | greater | atLeast =>
    change Value.operate .multiply (w.value column (.binary _ t u)).operand (w.value column (.numeral ['1'])).operand = _
    rw [hv, hone]
    exact Value.operate_truth h _
  | _ => exact hv

/-! ### Functions -/

theorem values_eq (ts : List Term) : value.values w column ts = ts.map (w.value column) := by
  induction ts with
  | nil => rfl
  | cons t ts ih => rw [value.values, ih, List.map_cons]

theorem value_call (f : String) (ts : List Term) :
    w.value column (.call f.toList ts) = .applyPresent column f (ts.map (w.value column)) := by
  rw [value, values_eq, String.ofList_toList]

section
variable {xs ys : List α}

theorem value_sum (ht : w.value column t = .cells xs) :
    w.value column (.call "SUM".toList [t]) = .number (xs.foldl (· + ·) 0) := by
  have hsum (vs : List (Value α)) :
      Value.apply column "SUM" vs = .ofOption ((Value.allItems vs).map (List.foldl (· + ·) 0)) := rfl
  rw [value_call, List.map_singleton, ht,
    Value.applyPresent_fold (by decide) hsum (by simp) (Value.allItems_cells xs)]
  cases xs <;> rfl

theorem value_product (ht : w.value column t = .cells xs) :
    w.value column (.call "PRODUCT".toList [t]) = .number (overPresent (List.foldl (· * ·) 1) xs) := by
  rw [value_call, List.map_singleton, ht]
  exact Value.applyPresent_fold (by decide) (fun _ => rfl) (by simp) (Value.allItems_cells xs)

theorem value_countNonzero (ht : w.value column t = .cells xs) :
    w.value column (.call "COUNTIF".toList [t, .text "<>0".toList]) = .number (xs.foldl countStep 0) := by
  have htext : (Value.text (α := α) "<>0".toList).items ≠ some [] := by simp [Value.items]
  rw [value_call, List.map_cons, List.map_singleton, ht]
  exact (Value.applyPresent_eq (by decide) (by simp [value]) htext).trans (Value.apply_countNonzero column xs)

theorem value_sumOfProducts (ht : w.value column t = .cells xs) (hu : w.value column u = .cells ys) :
    w.value column (.call "SUMPRODUCT".toList [t, u]) = .number ((List.zipWith (· * ·) xs ys).foldl (· + ·) 0) := by
  rw [value_call, List.map_cons, List.map_singleton, ht, hu]
  cases xs with
  | nil =>
    rw [Value.applyPresent, if_neg (by decide)]
    split <;> rfl
  | cons x xs =>
    have hitems : (Value.cells (x :: xs)).items ≠ some [] := by simp [Value.items]
    rw [Value.applyPresent_eq (by decide) List.mem_cons_self hitems, Value.apply_sumOfProducts]

theorem value_abs (ht : (w.value column t).Holds x) :
    w.value column (.call "ABS".toList [t]) = .number (Arithmetic.magnitude (x.getD 0)) := by
  rw [value_call, List.map_singleton, Value.applyPresent, if_pos rfl, List.map_singleton]
  change Value.ofOption ((w.value column t).operand.scalar.map _) = _
  rw [ht.operand.scalar]
  rfl

theorem value_fold {name : String} {fold : List α → α} {ts : List Term} {xs : List (Option α)} (hname : name ≠ "ABS")
    (happly : ∀ vs, Value.apply column name vs = .ofOption ((Value.allItems vs).map fold)) (hts : ts ≠ [])
    (h : List.Forall₂ Value.Holds xs (ts.map (w.value column))) :
    w.value column (.call name.toList ts) = .number (overPresent fold xs.reduceOption) := by
  rw [value_call]
  exact Value.applyPresent_fold hname happly (by simpa using hts) (Value.Holds.allItems h)

end

/-! ### Rows -/

omit [Arithmetic α] in
/-- The cells of a row from one column on, of which those past the last column are empty. -/
theorem area_row {first periods : Nat} (hw : w.lastColumn + 1 = first + periods) (sheet : String) (row n : Nat) :
    w.area ⟨sheet, first, row, min (first + n) w.lastColumn, row⟩ =
      tabulate (min (n + 1) periods) fun j => w.cell sheet (first + j) row := by
  have hrow : row + 1 - row = 1 := by omega
  have hcolumns : min (first + n) w.lastColumn + 1 - first = min (n + 1) periods := by omega
  simp only [Spreadsheet.area, hrow, hcolumns, List.range'_one, List.flatMap_singleton]
  rw [List.range'_eq_map_range, List.map_map]
  rfl

omit [Arithmetic α] in
theorem area_cell {first periods : Nat} (hw : w.lastColumn + 1 = first + periods) (sheet : String) (row i : Nat) :
    w.area ⟨sheet, first + i, row, min (first + i) w.lastColumn, row⟩ =
      if i < periods then [w.cell sheet (first + i) row] else [] := by
  have hrow : row + 1 - row = 1 := by omega
  have hcolumns : min (first + i) w.lastColumn + 1 - (first + i) = if i < periods then 1 else 0 := by
    split <;> omega
  simp only [Spreadsheet.area, hrow, hcolumns, List.range'_one, List.flatMap_singleton]
  split <;> rfl

end Worksheet

end MonthlyModel.Sheet
