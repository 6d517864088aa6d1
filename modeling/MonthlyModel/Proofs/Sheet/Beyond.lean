import Mathlib
import MonthlyModel.Proofs.Sheet.Conversion
import MonthlyModel.Proofs.Sheet.Worksheet

/-! What converted expressions compute on a worksheet that ends with the last month.

A shift with a negative offset converts an expression for a month that may come after the last one, where
the rows of its references are empty. So an expression gets a number for every month here, those after the
last one included, and the formula that it is converted to has this number. -/

namespace MonthlyModel

variable {α : Type} [Arithmetic α]

namespace Formula

open Sheet (overPresent)

/-! ### Numbers by month -/

/-- The numbers that are there in the months up to month `i`. -/
def present (x : Nat → Option α) (i : Nat) : List α :=
  (List.range (i + 1)).filterMap x

/-- What is there `offset` months before month `i`; zero before the first month. -/
def before (x : Nat → Option α) (offset : Int) (i : Nat) : Option α :=
  if i - offset < 0 then some 0 else x (i - offset).toNat

/-- The number of a function in month `i`. Functions that start anew with every year have no formula in a
    cell, and no number here. -/
def Function.numberAt (f : Function) (arguments : List (Nat → Option α)) (i : Nat) : Option α :=
  let x := arguments.headD fun _ => none
  match f with
  | .abs => some (Arithmetic.magnitude ((x i).getD 0))
  | .max => some (overPresent Arithmetic.largest (arguments.filterMap (· i)))
  | .min => some (overPresent Arithmetic.smallest (arguments.filterMap (· i)))
  | .count => some ((present x i).foldl countStep 0)
  | .cumprod => some (overPresent (List.foldl (· * ·) 1) (present x i))
  | .cumsum => some ((present x i).foldl (· + ·) 0)
  | .prevsum => some (if i = 0 then 0 else (present x (i - 1)).foldl (· + ·) 0)
  | .prevval => before x 1 i
  | .shift => before x ((((arguments.getD 1 fun _ => none) i).bind Arithmetic.whole?).getD 0) i
  | .cumsumByYear | .cumprodByYear => none

/-- The number of an expression in month `i`. A reference has none after the last month. -/
def numberAt (c : Context α) : Expr → Nat → Option α
  | .number x, _ => some (Arithmetic.literal x)
  | .reference r, i => if i < c.periods then some (valueAt c (.reference r) i) else none
  | .negate e, i => some (- (numberAt c e i).getD 0)
  | .binary o l r, i => some (o.apply ((numberAt c l i).getD 0) ((numberAt c r i).getD 0))
  | .call f es, i => f.numberAt (numbersOf c es) i
where
  /-- The numbers of several expressions. -/
  numbersOf (c : Context α) : List Expr → List (Nat → Option α)
    | [] => []
    | e :: es => numberAt c e :: numbersOf c es

variable {c : Context α} {e : Expr} {r : Reference}

theorem numbersOf_eq (es : List Expr) : numberAt.numbersOf c es = es.map (numberAt c) := by
  induction es with
  | nil => rfl
  | cons e es ih => simp [numberAt.numbersOf, ih]

theorem numberAt_call (f : Function) (es : List Expr) : numberAt c (.call f es) = f.numberAt (es.map (numberAt c)) := by
  funext i
  rw [numberAt, numbersOf_eq]

omit [Arithmetic α] in
theorem present_succ (x : Nat → Option α) (i : Nat) : present x (i + 1) = present x i ++ (x (i + 1)).toList := by
  rw [present, List.range_succ, List.filterMap_append, ← present]
  cases h : x (i + 1) <;> simp [h]

omit [Arithmetic α] in
theorem present_ite (x : Nat → α) (n i : Nat) :
    present (fun j => if j < n then some (x j) else none) i = tabulate (min (i + 1) n) x := by
  induction i with
  | zero =>
    cases n <;> simp [present, tabulate, List.range_succ]
  | succ i ih =>
    rw [present_succ, ih]
    by_cases h : i + 1 < n
    · rw [if_pos h, Nat.min_eq_left (by omega), Nat.min_eq_left (by omega), tabulate_succ (i + 1)]
      rfl
    · rw [if_neg h, Nat.min_eq_right (by omega), Nat.min_eq_right (by omega)]
      simp

/-- What is not there adds nothing to a sum. -/
theorem foldl_present (h : Sheet.Exact α) (x : Nat → Option α) (i : Nat) :
    (present x i).foldl (· + ·) 0 = foldMonths (· + ·) 0 (fun j => (x j).getD 0) 0 i := by
  have add_zero (a : α) : a + 0 = a := by rw [h.add_comm, h.zero_add]
  induction i with
  | zero =>
    rw [foldMonths_self]
    cases hx : x 0 <;> simp [present, List.range_succ, hx, h.zero_add]
  | succ i ih =>
    rw [present_succ, List.foldl_append, ih, foldMonths_succ _ _ _ (Nat.zero_le _)]
    cases x (i + 1) <;> simp [add_zero]

end Formula

namespace Sheet

open Formula (Expr Function Operator Context valueAt numberAt present before present_ite foldl_present tabulate
  foldMonths countStep)

/-- A formula is read as written and has a number in a column, or stands for an empty cell. -/
structure Denotes (w : Worksheet α) (column : Nat) (f : CellFormula) (x : Option α) : Prop where
  regular : f.Regular
  value : (w.value column f.term).Holds x

/-- A worksheet ends with the last month, and counts with exact numbers. -/
structure Ends (w : Worksheet α) (c : Context α) (l : Layout) : Prop where
  exact : Exact α
  sub_neg : ∀ x y : α, x - -y = x + y
  counts : w.Counts
  firstColumn : 0 < l.firstColumn
  lastColumn : w.lastColumn + 1 = l.firstColumn + c.periods

variable {w : Worksheet α} {c : Context α} {l : Layout} {p position column : Nat} {e : Expr} {r : Reference}

theorem Denotes.number {f : CellFormula} {x : α} (hf : f.Regular) (h : w.value column f.term = .number x) :
    Denotes w column f (some x) :=
  ⟨hf, h ▸ .filled .number⟩

/-! ### Cells and ranges -/

theorem Ends.denotes_cell (h : Ends w c l) (he : Carries w.toSpreadsheet c l e) (hr : r ∈ e.references)
    (hp : l.firstColumn + position < UInt32.size) {cell : Cell} (hc : (Surroundings.ofLayout l p).cell r position = .ok cell) :
    Denotes w column (.cell cell) (numberAt c (.reference r) position) := by
  obtain ⟨row, hrow, rfl⟩ := map_eq_ok_iff.mp hc
  rw [column_ofLayout hp]
  refine ⟨.cell (Nat.add_pos_left h.firstColumn _), ?_⟩
  change Value.Holds _ (.cells (w.area ⟨_, _, _, min _ w.lastColumn, _⟩))
  rw [Worksheet.area_cell h.lastColumn, numberAt]
  split
  · next hi =>
    rw [he.cells r hr row (row_eq_ok_iff.mp hrow) position hi]
    exact .filled .cell
  · exact .empty

theorem Ends.value_range (h : Ends w c l) (he : Carries w.toSpreadsheet c l e) (hr : r ∈ e.references)
    (hp : l.firstColumn + position < UInt32.size) {range : RowRange} (hc : (Surroundings.ofLayout l p).range r position = .ok range)
    (column : Nat) :
    range.Exists ∧ w.value column range.term = .cells (tabulate (min (position + 1) c.periods) (valueAt c (.reference r))) := by
  obtain ⟨row, hrow, rfl⟩ := map_eq_ok_iff.mp hc
  rw [column_ofLayout hp, column_ofLayout (by omega), Nat.add_zero]
  refine ⟨⟨h.firstColumn, Nat.add_pos_left h.firstColumn _⟩, ?_⟩
  change Value.cells (w.area ⟨_, _, _, min _ w.lastColumn, _⟩) = _
  rw [Worksheet.area_row h.lastColumn]
  refine congrArg Value.cells (Formula.tabulate_congr fun j hj => ?_)
  exact he.cells r hr row (row_eq_ok_iff.mp hrow) j (by omega)

theorem present_reference (i : Nat) :
    present (numberAt c (.reference r)) i = tabulate (min (i + 1) c.periods) (valueAt c (.reference r)) :=
  present_ite _ _ _

/-! ### Numbers -/

theorem denotes_number {x : Float} {f : CellFormula} (hx : w.toSpreadsheet.Agrees x) (hf : numberFormula x = .ok f) :
    Denotes w column f (some (Arithmetic.literal x)) := by
  obtain ⟨hfinite, rfl⟩ := numberFormula_eq_ok_iff.mp hf
  refine .number (.number hfinite) ?_
  rw [CellFormula.term, Worksheet.value_signed, hx.reads hfinite]

theorem Ends.denotes_zero (h : Ends w c l) {f : CellFormula} (hf : numberFormula 0 = .ok f) :
    Denotes w column f (some 0) := by
  obtain ⟨hregular, hv⟩ : Computes w.toSpreadsheet column f 0 := computes_zero h.exact h.counts hf
  obtain ⟨hfinite, rfl⟩ := numberFormula_eq_ok_iff.mp hf
  refine ⟨hregular, .filled ?_⟩
  rwa [CellFormula.term, Worksheet.value_signed]

theorem Ends.denotes_binary (h : Ends w c l) {o : Operator} {f g : CellFormula} {x y : Option α}
    (hf : Denotes w column f x) (hg : Denotes w column g y) :
    Denotes w column (.binary o f g) (some (o.apply (x.getD 0) (y.getD 0))) :=
  .number (.binary o hf.regular hg.regular) (Worksheet.value_operationTerm h.exact h.counts o hf.value hg.value)

theorem Ends.denotes_columnsPast (h : Ends w c l) {offset : Int} {m : Nat} (hm : column - offset = m) :
    Denotes w column (.columnsPast offset) (some (Arithmetic.ofNat m)) := by
  refine .number (.columnsPast _) ?_
  have hcolumn : (w.value column (.call "COLUMN".toList [])).Holds (some (Arithmetic.ofNat column)) := by
    rw [Worksheet.value_call]
    exact .filled .number
  rw [CellFormula.term]
  -- To take away a negative offset is to add its size.
  by_cases hneg : offset < 0
  · have hdigits : (w.value column (signed (Decimal.intDigits offset))).Holds (some (- Arithmetic.ofNat offset.natAbs)) := by
      rw [Decimal.intDigits, if_pos hneg, ← h.counts]
      exact .filled .number
    obtain rfl : m = column + offset.natAbs := by omega
    rw [Worksheet.value_binary .subtract hcolumn hdigits, h.exact.ofNat_add, ← h.sub_neg]
    rfl
  · obtain ⟨n, rfl⟩ := Int.eq_ofNat_of_zero_le (Int.not_lt.mp hneg)
    have hdigits : (w.value column (signed (Decimal.intDigits n))).Holds (some (Arithmetic.ofNat n)) := by
      rw [Worksheet.value_signed, Spreadsheet.value_intDigits h.counts]
      exact .filled .number
    obtain rfl : column = m + n := by omega
    rw [Worksheet.value_binary .subtract hcolumn hdigits, ← h.exact.ofNat_sub m n]
    rfl

/-! ### Running functions -/

theorem Ends.denotes_sum (h : Ends w c l) (he : Carries w.toSpreadsheet c l e) (hr : r ∈ e.references)
    (hp : l.firstColumn + position < UInt32.size) {range : RowRange} (hc : (Surroundings.ofLayout l p).range r position = .ok range) :
    Denotes w column (.sum range) (some ((present (numberAt c (.reference r)) position).foldl (· + ·) 0)) := by
  obtain ⟨hexists, hv⟩ := h.value_range he hr hp hc column
  refine .number (.sum hexists) ?_
  rw [CellFormula.term, Worksheet.value_sum hv, present_reference]

theorem Ends.denotes_product (h : Ends w c l) (he : Carries w.toSpreadsheet c l e) (hr : r ∈ e.references)
    (hp : l.firstColumn + position < UInt32.size) {range : RowRange} (hc : (Surroundings.ofLayout l p).range r position = .ok range) :
    Denotes w column (.product range)
      (some (overPresent (List.foldl (· * ·) 1) (present (numberAt c (.reference r)) position))) := by
  obtain ⟨hexists, hv⟩ := h.value_range he hr hp hc column
  refine .number (.product hexists) ?_
  rw [CellFormula.term, Worksheet.value_product hv, present_reference]

theorem Ends.denotes_countNonzero (h : Ends w c l) (he : Carries w.toSpreadsheet c l e) (hr : r ∈ e.references)
    (hp : l.firstColumn + position < UInt32.size) {range : RowRange} (hc : (Surroundings.ofLayout l p).range r position = .ok range) :
    Denotes w column (.countNonzero range)
      (some ((present (numberAt c (.reference r)) position).foldl countStep 0)) := by
  obtain ⟨hexists, hv⟩ := h.value_range he hr hp hc column
  refine .number (.countNonzero hexists) ?_
  rw [CellFormula.term, Worksheet.value_countNonzero hv, present_reference]

theorem numberAt_of_asNumber? (he : Carries w.toSpreadsheet c l e) {x : Float} (hx : e.asNumber? = some x) (i : Nat) :
    numberAt c e i = some (Arithmetic.literal x) := by
  induction e using Expr.induct generalizing x with
  | number y =>
    cases hx
    rfl
  | negate e ih =>
    obtain ⟨y, hy, rfl⟩ := Option.map_eq_some_iff.mp hx
    rw [numberAt, ih he.of_negate hy, (he.of_negate.numbers y (Expr.mem_numbers_of_asNumber? hy)).negated]
    rfl
  | _ => cases hx

theorem numberAt_shifts {e' : Expr} {k : Int} (he : Carries w.toSpreadsheet c l e') (hs : Shifts e' e k) (i : Nat) :
    numberAt c e' i = before (numberAt c e) k i := by
  cases hs with
  | prevval => rw [Formula.numberAt_call]; rfl
  | @shift _ o _ ho =>
    obtain ⟨x, hx, hwhole⟩ := Option.bind_eq_some_iff.mp ho
    have hc := he.of_call o (by simp)
    have hoffset : (numberAt c o i).bind Arithmetic.whole? = some k := by
      rw [numberAt_of_asNumber? hc hx, Option.bind_some, (hc.numbers x (Expr.mem_numbers_of_asNumber? hx)).whole, hwhole]
    simp [Formula.numberAt_call, Function.numberAt, hoffset]

/-- As many months as have passed, in a column that need not be the one of the month. -/
theorem Ends.denotes_counted (h : Ends w c l) {x : Float} {f : CellFormula} (hx : w.toSpreadsheet.Agrees x)
    (hf : countedFormula (.ofLayout l p) x position = .ok f) : Denotes w (l.firstColumn + p) f
      (some (foldMonths (· + ·) 0 (fun _ => (Arithmetic.literal x : α)) 0 position)) := by
  have hmonths : Denotes w (l.firstColumn + p) (.columnsPast ((l.firstColumn : Int) - 1 + (p - position)))
      (some (Arithmetic.ofNat (position + 1))) := h.denotes_columnsPast (by omega)
  rw [h.exact.foldMonths_const]
  unfold countedFormula at hf
  dsimp only at hf
  split at hf
  · next hone =>
    cases hf
    rw [hx.one hone, h.exact.one_mul]
    exact hmonths
  · obtain ⟨g, hg, rfl⟩ := map_eq_ok_iff.mp hf
    exact h.denotes_binary (denotes_number hx hg) hmonths

/-- The products of two references that are both there add up to the sum of all their products. -/
theorem foldl_products (hα : Exact α) (a b : Reference) (i : Nat) :
    (tabulate (min (i + 1) c.periods) fun j => valueAt c (.reference a) j * valueAt c (.reference b) j).foldl (· + ·) 0 =
      (present (numberAt c (.binary .multiply (.reference a) (.reference b))) i).foldl (· + ·) 0 := by
  rw [← present_ite, foldl_present hα, foldl_present hα]
  congr 1
  funext j
  by_cases hj : j < c.periods <;> simp [numberAt, Operator.apply, hj, hα.mul_zero]

theorem Ends.denotes_sumsUp (h : Ends w c l) (he : Carries w.toSpreadsheet c l e) (hp : l.firstColumn + position < UInt32.size)
    {f : CellFormula} (hf : SumsUp (.ofLayout l p) e position f) :
    Denotes w (l.firstColumn + p) f (some ((present (numberAt c e) position).foldl (· + ·) 0)) := by
  cases hf with
  | reference hrange => exact h.denotes_sum he (by simp [Expr.references]) hp hrange
  | @product a b _ ra rb ha hb =>
    obtain ⟨hea, hva⟩ := h.value_range he (r := a) (by simp [Expr.references]) hp ha (l.firstColumn + p)
    obtain ⟨heb, hvb⟩ := h.value_range he (r := b) (by simp [Expr.references]) hp hb (l.firstColumn + p)
    refine .number (.sumOfProducts hea heb) ?_
    rw [CellFormula.term, Worksheet.value_sumOfProducts hva hvb, zipWith_tabulate, foldl_products h.exact]
  | @sum a b _ ra rb ha hb =>
    have hsa : Denotes w (l.firstColumn + p) (.sum ra) _ := h.denotes_sum he (r := a) (by simp [Expr.references]) hp ha
    have hsb : Denotes w (l.firstColumn + p) (.sum rb) _ := h.denotes_sum he (r := b) (by simp [Expr.references]) hp hb
    have hsum := h.denotes_binary (o := .add) hsa hsb
    simp only [foldl_present h.exact, Option.getD_some, Operator.apply] at hsum
    rw [← h.exact.foldMonths_add] at hsum
    rwa [foldl_present h.exact]
  | @number _ _ _ x hx hf =>
    rw [foldl_present h.exact]
    simp only [numberAt_of_asNumber? he hx, Option.getD_some]
    exact h.denotes_counted (he.numbers x (Expr.mem_numbers_of_asNumber? hx)) hf

/-! ### Functions of a month -/

theorem regular_of_denotes {fs : List CellFormula} {xs : List (Option α)} (h : List.Forall₂ (Denotes w column) fs xs) :
    ∀ f ∈ fs, f.Regular := by
  induction h with
  | nil => simp
  | cons hf _ ih => exact List.forall_mem_cons.mpr ⟨hf.regular, ih⟩

theorem holds_of_denotes {fs : List CellFormula} {xs : List (Option α)} (h : List.Forall₂ (Denotes w column) fs xs) :
    List.Forall₂ Value.Holds xs ((CellFormula.term.terms fs).map (w.value column)) := by
  induction h with
  | nil => exact .nil
  | cons hf _ ih => exact .cons hf.value ih

theorem denotes_fold {f : Function} {fold : List α → α} {fs : List CellFormula} {xs : List (Option α)}
    (hf : f.isTemporal = false) (hname : f.name ≠ "ABS")
    (happly : ∀ vs, Value.apply column f.name vs = .ofOption ((Value.allItems vs).map fold)) (hxs : xs ≠ [])
    (h : List.Forall₂ (Denotes w column) fs xs) :
    Denotes w column (.call f fs) (some (overPresent fold xs.reduceOption)) := by
  refine .number (.call hf (regular_of_denotes h)) (Worksheet.value_fold hname happly ?_ (holds_of_denotes h))
  cases h with
  | nil => exact absurd rfl hxs
  | cons => simp [CellFormula.term.terms]

theorem denotes_abs {f : CellFormula} {x : Option α} (h : Denotes w column f x) :
    Denotes w column (.call .abs [f]) (some (Arithmetic.magnitude (x.getD 0))) :=
  .number (.call rfl (List.forall_mem_singleton.mpr h.regular)) (Worksheet.value_abs h.value)

theorem denotes_call {f : Function} {es : List Expr} {fs : List CellFormula} (hf : f.isTemporal = false)
    (htakes : f.takes es.length = true)
    (h : List.Forall₂ (Denotes w column) fs (es.map fun e => numberAt c e position)) :
    Denotes w column (.call f fs) (numberAt c (.call f es) position) := by
  rw [Formula.numberAt_call]
  cases f with
  | max | min =>
    have hpresent : (es.map (numberAt c)).filterMap (· position) = (es.map fun e => numberAt c e position).reduceOption := by
      simp [List.reduceOption]
    have hes : es ≠ [] := by
      rintro rfl
      cases htakes
    simp only [Function.numberAt, hpresent]
    exact denotes_fold rfl (by decide) (fun _ => rfl) (by simpa using hes) h
  | abs =>
    obtain ⟨e, rfl⟩ := List.length_eq_one_iff.mp (Function.eq_of_takes htakes rfl rfl)
    cases h with
    | cons he hnil =>
      cases hnil
      exact denotes_abs he
  | _ => cases hf

/-! ### Conversion -/

/-- On a sheet that ends somewhere, an offset of any size leads to the month that it says. -/
theorem landing_on_sheet {target : Nat} {k : Int} (hp : l.firstColumn + position < UInt32.size)
    (h : (Surroundings.ofLayout l p).landing position (saturate k) = .on target) :
    (position : Int) - k = target ∧ l.firstColumn + target < UInt32.size := by
  have hp : l.firstColumn + position < 4294967296 := hp
  obtain ⟨htarget, hlimit⟩ := landing_eq_on_iff.mp h
  have hlimit : l.firstColumn + target ≤ 16384 := hlimit _ rfl
  simp only [saturate_eq, UInt32.size] at *
  omega

/-- What an expression is converted to for some month has the number of the expression in that month, after
    the last month too. -/
theorem Ends.denotes (h : Ends w c l) (he : Carries w.toSpreadsheet c l e) {f : CellFormula}
    (hf : Converts (.ofLayout l p) e position f) (hp : l.firstColumn + position < UInt32.size) :
    Denotes w (l.firstColumn + p) f (numberAt c e position) := by
  induction hf with
  | number hf => exact denotes_number (he.numbers _ (by simp [Expr.numbers])) hf
  | reference hcell => exact h.denotes_cell he (by simp [Expr.references]) hp hcell
  | negate _ ih =>
    obtain ⟨hregular, hv⟩ := ih he.of_negate hp
    exact .number (.negate hregular) (Worksheet.value_negate hv)
  | binary o _ _ ihl ihr => exact h.denotes_binary (ihl he.of_binary.1 hp) (ihr he.of_binary.2 hp)
  | call hf htakes hlength _ ih =>
    refine denotes_call hf htakes (List.forall₂_map_right_iff.mpr (List.Forall₂.flip ?_))
    exact List.forall₂_iff_zip.mpr ⟨hlength, fun hmem => ih hmem (he.of_call _ (List.of_mem_zip hmem).1) hp⟩
  | cumsum hsum =>
    rw [Formula.numberAt_call]
    exact h.denotes_sumsUp (he.of_call _ (by simp)) hp hsum
  | cumprod hrange =>
    rw [Formula.numberAt_call]
    exact h.denotes_product he (by simp [Expr.references, Expr.references.referencesOfAll]) hp hrange
  | count hrange =>
    rw [Formula.numberAt_call]
    exact h.denotes_countNonzero he (by simp [Expr.references, Expr.references.referencesOfAll]) hp hrange
  | prevsumFirst hf =>
    rw [Formula.numberAt_call]
    exact h.denotes_zero hf
  | prevsum hsum =>
    rw [Formula.numberAt_call]
    exact h.denotes_sumsUp (he.of_call _ (by simp)) (by omega) hsum
  | before hshifts hl hf =>
    have hbefore := landing_before (Nat.lt_of_le_of_lt (Nat.le_add_left _ _) hp) hl
    rw [numberAt_shifts he hshifts, before, if_pos hbefore]
    exact h.denotes_zero hf
  | on hshifts hl _ ih =>
    obtain ⟨htarget, hlt⟩ := landing_on_sheet hp hl
    rw [numberAt_shifts he hshifts, before, if_neg (by omega), htarget, Int.toNat_natCast]
    exact ih (he.of_shifts hshifts) hlt

end Sheet

end MonthlyModel
