import Mathlib
import MonthlyModel.Proofs.Formula.Pointwise
import MonthlyModel.Proofs.Sheet.FormulaText

/-! What the terms of cell formulas compute.

Over exact numbers an operation in a cell has the value of its operator: quotients by zero are caught,
and comparisons are made numbers. Ranges give the tables of their cells, and sums over months obey the
laws by which they are split and counted. -/

namespace MonthlyModel.Sheet

open MonthlyModel.Formula (Expr Function Operator Context valueAt tabulate foldMonths lag countStep)

/-! ### Exact numbers -/

/-- The laws of exact numbers that sums over months need. -/
structure Exact (α : Type) [Arithmetic α] : Prop where
  zero_add : ∀ x : α, 0 + x = x
  add_comm : ∀ x y : α, x + y = y + x
  add_assoc : ∀ x y z : α, x + y + z = x + (y + z)
  add_sub_cancel : ∀ x y : α, x + y - y = x
  mul_zero : ∀ x : α, x * 0 = 0
  mul_one : ∀ x : α, x * 1 = x
  one_mul : ∀ x : α, 1 * x = x
  mul_add : ∀ x y z : α, x * (y + z) = x * y + x * z
  ofNat_zero : (Arithmetic.ofNat 0 : α) = 0
  ofNat_succ : ∀ n : Nat, (Arithmetic.ofNat (n + 1) : α) = Arithmetic.ofNat n + 1

section
variable {α : Type} [Arithmetic α]

namespace Exact

theorem ofNat_add (h : Exact α) (m n : Nat) : (Arithmetic.ofNat (m + n) : α) = Arithmetic.ofNat m + Arithmetic.ofNat n := by
  induction n with
  | zero => rw [Nat.add_zero, h.ofNat_zero, h.add_comm, h.zero_add]
  | succ n ih => rw [← Nat.add_assoc, h.ofNat_succ, ih, h.ofNat_succ, h.add_assoc]

theorem ofNat_sub (h : Exact α) (m n : Nat) : (Arithmetic.ofNat (m + n) : α) - Arithmetic.ofNat n = Arithmetic.ofNat m := by
  rw [h.ofNat_add, h.add_sub_cancel]

theorem ofNat_one (h : Exact α) : (Arithmetic.ofNat 1 : α) = 1 := by
  rw [h.ofNat_succ, h.ofNat_zero, h.zero_add]

theorem add_add_add_comm (h : Exact α) (a b c d : α) : a + b + (c + d) = a + c + (b + d) := by
  rw [h.add_assoc, ← h.add_assoc b, h.add_comm b c, h.add_assoc c, ← h.add_assoc a]

theorem foldMonths_add (h : Exact α) (x y : Nat → α) (n : Nat) : foldMonths (· + ·) 0 (fun i => x i + y i) 0 n =
    foldMonths (· + ·) 0 x 0 n + foldMonths (· + ·) 0 y 0 n := by
  induction n with
  | zero => simp only [Formula.foldMonths_self, h.zero_add]
  | succ n ih =>
    simp only [Formula.foldMonths_succ _ _ _ (Nat.zero_le (n + 1)), ih]
    exact h.add_add_add_comm _ _ _ _

/-- The sum of one number is as many times the number as there are months. -/
theorem foldMonths_const (h : Exact α) (k : α) (n : Nat) :
    foldMonths (· + ·) 0 (fun _ => k) 0 n = k * Arithmetic.ofNat (n + 1) := by
  induction n with
  | zero => rw [Formula.foldMonths_self, h.zero_add, Nat.zero_add, h.ofNat_one, h.mul_one]
  | succ n ih =>
    rw [Formula.foldMonths_succ _ _ _ (Nat.zero_le (n + 1)), ih, h.ofNat_succ (n + 1), h.mul_add, h.mul_one]

end Exact

/-! ### Operations -/

/-- A quotient by zero is an error, which is caught. -/
theorem Value.apply_compute_divide (column : Nat) (x y : α) :
    Value.apply column "IFERROR" [.compute .divide x y, .number 0] = .number (Operator.divide.apply x y) := by
  rw [compute, Operator.apply]
  split <;> rfl

/-- A comparison counts as a number once it is multiplied by one. -/
theorem Value.operate_truth (h : Exact α) (b : Bool) :
    Value.operate .multiply (.truth b) (.number (1 : α)) = .number (MonthlyModel.truth b) :=
  congrArg Value.number (h.mul_one _)

/-! ### Functions of cells -/

theorem Value.allItems_cells (xs : List α) : Value.allItems [.cells xs] = some xs := by
  simp [allItems, items]

theorem Value.apply_sum (column : Nat) (xs : List α) :
    Value.apply column "SUM" [.cells xs] = .number (xs.foldl (· + ·) 0) := by
  change Value.ofOption ((Value.allItems [.cells xs]).map _) = _
  rw [allItems_cells]
  rfl

theorem Value.apply_product (column : Nat) (xs : List α) :
    Value.apply column "PRODUCT" [.cells xs] = .number (xs.foldl (· * ·) 1) := by
  change Value.ofOption ((Value.allItems [.cells xs]).map _) = _
  rw [allItems_cells]
  rfl

theorem Value.apply_countNonzero (column : Nat) (xs : List α) :
    Value.apply column "COUNTIF" [.cells xs, .text "<>0".toList] = .number (xs.foldl countStep 0) :=
  rfl

theorem Value.apply_sumOfProducts (column : Nat) (xs ys : List α) : Value.apply column "SUMPRODUCT" [.cells xs, .cells ys] =
    .number ((List.zipWith (· * ·) xs ys).foldl (· + ·) 0) :=
  rfl

/-! ### Values that are one number -/

/-- A value is one number, as such or in one cell. -/
inductive Value.Is (x : α) : Value α → Prop where
  | number : Is x (.number x)
  | cell : Is x (.cells [x])

theorem Value.Is.scalar {x : α} {v : Value α} (h : v.Is x) : v.scalar = some x := by
  cases h <;> rfl

theorem Value.Is.items {x : α} {v : Value α} (h : v.Is x) : v.items = some [x] := by
  cases h <;> rfl

theorem Value.allItems_of_forall₂ {xs : List α} {vs : List (Value α)} (h : List.Forall₂ (fun x v => v.Is x) xs vs) :
    Value.allItems vs = some xs := by
  have hitems : vs.mapM Value.items = some (xs.map ([·])) := by
    induction h with
    | nil => rfl
    | cons hx _ ih => simp [List.mapM_cons, hx.items, ih]
  rw [allItems, hitems, Option.map_some]
  exact congrArg some (List.flatMap_singleton' xs)

/-! ### Numbers in formulas -/

namespace Spreadsheet

/-- A number that a formula writes is the same to a spreadsheet and to the evaluator. -/
structure Agrees (s : Spreadsheet α) (x : Float) : Prop where
  reads : x.isFinite = true → ∀ column, s.value column (signed (numberText x)) = .number (Arithmetic.literal x)
  negated : (Arithmetic.literal (-x) : α) = - Arithmetic.literal x
  one : (x == 1) = true → (Arithmetic.literal x : α) = 1
  whole : Arithmetic.whole? (Arithmetic.literal x : α) = Decimal.whole? x

/-- The digits of a whole number stand for it. -/
def Counts (s : Spreadsheet α) : Prop :=
  ∀ n, s.numeral (Decimal.digits n) = Arithmetic.ofNat n

variable {s : Spreadsheet α} {column : Nat} {t u : Term} {x y : α}

theorem digits_of_lt {n : Nat} (hn : n < 10) : Decimal.digits n = [Decimal.digitChar n] := by
  rw [Decimal.digits, if_pos hn]

theorem value_zero (h : Exact α) (hs : s.Counts) : s.value column (.numeral ['0']) = .number 0 := by
  rw [← h.ofNat_zero, ← hs 0, digits_of_lt (by decide)]
  rfl

theorem value_one (h : Exact α) (hs : s.Counts) : s.value column (.numeral ['1']) = .number 1 := by
  rw [← h.ofNat_one, ← hs 1, digits_of_lt (by decide)]
  rfl

theorem value_intDigits (hs : s.Counts) (n : Nat) :
    s.value column (signed (Decimal.intDigits n)) = .number (Arithmetic.ofNat n) := by
  have htext : Decimal.intDigits n = Decimal.digits n := if_neg (Int.not_lt.mpr (Int.natCast_nonneg n))
  rw [htext, (numeral_digits n).signed_eq, ← hs n]
  rfl

/-! ### Operators -/

theorem value_negate (ht : (s.value column t).Is x) : s.value column (.negate t) = .number (-x) := by
  rw [value, ht.scalar]
  rfl

theorem value_binary (o : Operator) (ht : (s.value column t).Is x) (hu : (s.value column u).Is y) :
    s.value column (.binary o t u) = .compute o x y := by
  rw [value, Value.operate, ht.scalar, hu.scalar]

theorem value_caught (h : Exact α) (hs : s.Counts) (hv : s.value column t = .compute .divide x y) :
    s.value column (.call "IFERROR".toList [t, .numeral ['0']]) = .number (Operator.divide.apply x y) := by
  change Value.apply column (String.ofList "IFERROR".toList) [s.value column t, s.value column (.numeral ['0'])] = _
  rw [String.ofList_toList, hv, value_zero h hs, Value.apply_compute_divide]

theorem value_counted (h : Exact α) (hs : s.Counts) {b : Bool} (hv : s.value column t = .truth b) :
    s.value column (.binary .multiply t (.numeral ['1'])) = .number (truth b) := by
  rw [value, hv, value_one h hs, Value.operate_truth h]

/-- An operation has the value of its operator: a quotient by zero is caught, and a comparison counts
    as one or zero. -/
theorem value_operationTerm (h : Exact α) (hs : s.Counts) (o : Operator) (ht : (s.value column t).Is x)
    (hu : (s.value column u).Is y) : s.value column (operationTerm o t u) = .number (o.apply x y) := by
  have hv := value_binary o ht hu
  cases o with
  | divide => exact value_caught h hs hv
  | equal | less | atMost | greater | atLeast => exact value_counted h hs hv
  | _ => exact hv

/-! ### Functions -/

theorem values_eq (ts : List Term) : value.values s column ts = ts.map (s.value column) := by
  induction ts with
  | nil => rfl
  | cons t ts ih => rw [value.values, ih, List.map_cons]

theorem value_call (f : String) (ts : List Term) :
    s.value column (.call f.toList ts) = .apply column f (ts.map (s.value column)) := by
  rw [value, values_eq, String.ofList_toList]

section
variable {xs ys : List α}

theorem value_sum (ht : s.value column t = .cells xs) :
    s.value column (.call "SUM".toList [t]) = .number (xs.foldl (· + ·) 0) := by
  rw [value_call, List.map_singleton, ht, Value.apply_sum]

theorem value_product (ht : s.value column t = .cells xs) :
    s.value column (.call "PRODUCT".toList [t]) = .number (xs.foldl (· * ·) 1) := by
  rw [value_call, List.map_singleton, ht, Value.apply_product]

theorem value_countNonzero (ht : s.value column t = .cells xs) :
    s.value column (.call "COUNTIF".toList [t, .text "<>0".toList]) = .number (xs.foldl countStep 0) := by
  rw [value_call, List.map_cons, List.map_singleton, ht]
  exact Value.apply_countNonzero column xs

theorem value_sumOfProducts (ht : s.value column t = .cells xs) (hu : s.value column u = .cells ys) :
    s.value column (.call "SUMPRODUCT".toList [t, u]) = .number ((List.zipWith (· * ·) xs ys).foldl (· + ·) 0) := by
  rw [value_call, List.map_cons, List.map_singleton, ht, hu, Value.apply_sumOfProducts]

end

omit [Arithmetic α] in
theorem area_row (sheet : String) (row first n : Nat) :
    s.area ⟨sheet, first, row, first + n, row⟩ = tabulate (n + 1) fun j => s.cell sheet (first + j) row := by
  have hrow : row + 1 - row = 1 := by omega
  have hcolumns : first + n + 1 - first = n + 1 := by omega
  simp only [area, hrow, hcolumns, List.range'_one, List.flatMap_singleton]
  rw [List.range'_eq_map_range, List.map_map]
  rfl

end Spreadsheet

end

end MonthlyModel.Sheet
