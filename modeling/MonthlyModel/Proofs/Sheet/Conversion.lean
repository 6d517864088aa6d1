import Mathlib
import MonthlyModel.Proofs.Sheet.Meaning
import MonthlyModel.Proofs.Sheet.Rules

/-! What converted expressions compute.

The evaluator folds whole series, a spreadsheet the cells of ranges that start in the column of the
first month. Where the cells hold the series, both come to the same: the formula that an expression is
converted to for some month has the value of the expression in that month. Shifts convert an expression
for earlier months than the one of the cell, so this is shown for all months up to that one at once. -/

namespace MonthlyModel.Sheet

open MonthlyModel.Formula (Expr Function Operator Context valueAt tabulate foldMonths lag countStep)

variable {α : Type} [Arithmetic α]

/-! ### Cells of a layout -/

/-- A month whose column a layout can tell. -/
structure Month (c : Context α) (l : Layout) (p : Nat) : Prop where
  firstColumn : 0 < l.firstColumn
  periods : p < c.periods
  counted : l.firstColumn + p < UInt32.size

/-- A spreadsheet carries what an expression reads: the series of its references in their rows, and its
    numbers. -/
structure Carries (s : Spreadsheet α) (c : Context α) (l : Layout) (e : Expr) : Prop where
  cells : ∀ r ∈ e.references, ∀ row, l.get? r = some row → ∀ j < c.periods,
    s.cell row.sheet (l.firstColumn + j) row.row = valueAt c (.reference r) j
  numbers : ∀ x ∈ e.numbers, s.Agrees x

/-- What a spreadsheet, a layout and the offsets of shifts have to meet for an expression. -/
structure Mirrors (s : Spreadsheet α) (c : Context α) (l : Layout) (e : Expr) : Prop extends Carries s c l e where
  offsets : ∀ o ∈ e.offsets, ∀ k, o.asNumber?.bind Decimal.whole? = some k → 0 ≤ k

variable {s : Spreadsheet α} {c : Context α} {l : Layout} {p position column : Nat} {e : Expr} {r : Reference}

namespace Carries

theorem of_negate (h : Carries s c l (.negate e)) : Carries s c l e :=
  ⟨h.cells, fun x hx => h.numbers x (List.mem_append_right _ hx)⟩

theorem of_binary {o : Operator} {e e' : Expr} (h : Carries s c l (.binary o e e')) :
    Carries s c l e ∧ Carries s c l e' := by
  constructor
  · exact ⟨fun r hr => h.cells r (List.mem_append_left _ hr), fun x hx => h.numbers x (List.mem_append_left _ hx)⟩
  · exact ⟨fun r hr => h.cells r (List.mem_append_right _ hr), fun x hx => h.numbers x (List.mem_append_right _ hx)⟩

theorem of_call {f : Function} {es : List Expr} (h : Carries s c l (.call f es)) : ∀ e ∈ es, Carries s c l e := by
  intro e he
  refine ⟨fun r hr => h.cells r ?_, fun x hx => h.numbers x ?_⟩
  · rw [Expr.references_call]
    exact List.mem_flatMap.mpr ⟨e, he, hr⟩
  · rw [Expr.numbers_call]
    exact List.mem_flatMap.mpr ⟨e, he, hx⟩

/-- A number that an expression writes is its value in all months. -/
theorem valueAt_eq {x : Float} (h : Carries s c l e) (hx : e.asNumber? = some x) (i : Nat) :
    valueAt c e i = Arithmetic.literal x := by
  induction e using Expr.induct generalizing x with
  | number y =>
    cases hx
    rfl
  | negate e ih =>
    obtain ⟨y, hy, rfl⟩ := Option.map_eq_some_iff.mp hx
    rw [valueAt, ih h.of_negate hy, (h.of_negate.numbers y (Expr.mem_numbers_of_asNumber? hy)).negated]
  | _ => cases hx

/-- The offset of a shift is a number that the formula writes. -/
theorem whole?_valueAt {o : Expr} {m : Int} (h : Carries s c l o) (hm : o.asNumber?.bind Decimal.whole? = some m)
    (i : Nat) : Arithmetic.whole? (valueAt c o i) = some m := by
  obtain ⟨x, hx, hw⟩ := Option.bind_eq_some_iff.mp hm
  rw [h.valueAt_eq hx, (h.numbers x (Expr.mem_numbers_of_asNumber? hx)).whole, hw]

theorem of_shifts {e e' : Expr} {k : Int} (h : Carries s c l e') (hs : Shifts e' e k) : Carries s c l e := by
  cases hs <;> exact h.of_call e (by simp)

theorem valueAt_shifts {e e' : Expr} {k : Int} (h : Carries s c l e') (hs : Shifts e' e k) (i : Nat) :
    valueAt c e' i = lag c.periods (valueAt c e) k i := by
  rw [Context.periods]
  cases hs with
  | prevval => rw [Formula.valueAt_call]; rfl
  | @shift _ o _ ho => simp [Formula.valueAt_call, Function.valueAt, (h.of_call o (by simp)).whole?_valueAt ho i]

end Carries

namespace Mirrors

theorem of_negate (h : Mirrors s c l (.negate e)) : Mirrors s c l e :=
  ⟨h.toCarries.of_negate, h.offsets⟩

theorem of_binary {o : Operator} {e e' : Expr} (h : Mirrors s c l (.binary o e e')) :
    Mirrors s c l e ∧ Mirrors s c l e' :=
  ⟨⟨h.toCarries.of_binary.1, fun o ho => h.offsets o (List.mem_append_left _ ho)⟩,
    ⟨h.toCarries.of_binary.2, fun o ho => h.offsets o (List.mem_append_right _ ho)⟩⟩

theorem of_call {f : Function} {es : List Expr} (h : Mirrors s c l (.call f es)) : ∀ e ∈ es, Mirrors s c l e := by
  intro e he
  refine ⟨h.toCarries.of_call e he, fun o ho => h.offsets o ?_⟩
  rw [Formula.offsets_call]
  exact List.mem_append_right _ (List.mem_flatMap.mpr ⟨e, he, ho⟩)

theorem of_shifts {e e' : Expr} {k : Int} (h : Mirrors s c l e') (hs : Shifts e' e k) : Mirrors s c l e := by
  cases hs <;> exact h.of_call e (by simp)

theorem nonneg_of_shifts {e e' : Expr} {k : Int} (h : Mirrors s c l e') (hs : Shifts e' e k) : 0 ≤ k := by
  cases hs with
  | prevval => decide
  | @shift _ o _ ho => exact h.offsets o (by simp [Formula.offsets_call]) k ho

end Mirrors

theorem column_ofLayout (hp : l.firstColumn + position < UInt32.size) (p : Nat) :
    (Surroundings.ofLayout l p).column position = l.firstColumn + position :=
  Layout.column_eq hp

omit [Arithmetic α] in
theorem Month.column_eq (h : Month c l p) (hp : position ≤ p) :
    (Surroundings.ofLayout l p).column position = l.firstColumn + position :=
  column_ofLayout (Nat.lt_of_le_of_lt (Nat.add_le_add_left hp _) h.counted) p

omit [Arithmetic α] in
theorem Month.position_lt (h : Month c l p) (hp : position ≤ p) : position < UInt32.size :=
  Nat.lt_of_le_of_lt (Nat.le_trans hp (Nat.le_add_left _ _)) h.counted

/-- A formula is read as written and computes a number in a column. -/
structure Computes (s : Spreadsheet α) (column : Nat) (f : CellFormula) (x : α) : Prop where
  regular : f.Regular
  value : (s.value column f.term).Is x

theorem value_cell (cell : Cell) :
    s.value column (CellFormula.cell cell).term = .cells [s.cell cell.sheet cell.column cell.row] := by
  have harea := Spreadsheet.area_row (s := s) cell.sheet cell.row cell.column 0
  exact congrArg Value.cells harea

theorem Mirrors.computes_cell (h : Mirrors s c l e) (hr : r ∈ e.references) (hm : Month c l p) (hp : position ≤ p)
    {cell : Cell} (hc : (Surroundings.ofLayout l p).cell r position = .ok cell) :
    Computes s column (.cell cell) (valueAt c (.reference r) position) := by
  have hposition : position < c.periods := Nat.lt_of_le_of_lt hp hm.periods
  obtain ⟨row, hrow, rfl⟩ := map_eq_ok_iff.mp hc
  rw [hm.column_eq hp]
  refine ⟨.cell (Nat.add_pos_left hm.firstColumn _), ?_⟩
  rw [value_cell, ← h.cells r hr row (row_eq_ok_iff.mp hrow) position hposition]
  exact .cell

theorem Mirrors.value_range (h : Mirrors s c l e) (hr : r ∈ e.references) (hm : Month c l p) (hp : position ≤ p)
    {range : RowRange} (hc : (Surroundings.ofLayout l p).range r position = .ok range) (column : Nat) :
    range.Exists ∧ s.value column range.term = .cells (tabulate (position + 1) (valueAt c (.reference r))) := by
  obtain ⟨row, hrow, rfl⟩ := map_eq_ok_iff.mp hc
  rw [hm.column_eq hp, hm.column_eq (Nat.zero_le p), Nat.add_zero]
  refine ⟨⟨hm.firstColumn, Nat.add_pos_left hm.firstColumn _⟩, ?_⟩
  change Value.cells (s.area _) = _
  rw [Spreadsheet.area_row]
  refine congrArg Value.cells (Formula.tabulate_congr fun j hj => ?_)
  exact h.cells r hr row (row_eq_ok_iff.mp hrow) j (by have := hm.periods; omega)

/-! ### Numbers -/

theorem computes_number {x : Float} {f : CellFormula} (hx : s.Agrees x) (h : numberFormula x = .ok f) :
    Computes s column f (Arithmetic.literal x) := by
  obtain ⟨hfinite, rfl⟩ := numberFormula_eq_ok_iff.mp h
  refine ⟨.number hfinite, ?_⟩
  rw [CellFormula.term, hx.reads hfinite]
  exact .number

theorem computes_zero {f : CellFormula} (hα : Exact α) (hs : s.Counts) (h : numberFormula 0 = .ok f) :
    Computes s column f (0 : α) := by
  obtain ⟨hfinite, rfl⟩ := numberFormula_eq_ok_iff.mp h
  refine ⟨.number hfinite, ?_⟩
  have htext : numberText 0 = ['0'] := if_pos (by decide)
  rw [CellFormula.term, htext, (numeral_singleton rfl).signed_eq, Spreadsheet.value_zero hα hs]
  exact .number

theorem Computes.binary {o : Operator} {f g : CellFormula} {x y : α} (hα : Exact α) (hs : s.Counts)
    (hf : Computes s column f x) (hg : Computes s column g y) : Computes s column (.binary o f g) (o.apply x y) := by
  refine ⟨.binary o hf.regular hg.regular, ?_⟩
  rw [CellFormula.term, Spreadsheet.value_operationTerm hα hs o hf.value hg.value]
  exact .number

theorem computes_columnsPast (hα : Exact α) (hs : s.Counts) (m n : Nat) :
    Computes s (m + n) (.columnsPast n) (Arithmetic.ofNat m : α) := by
  refine ⟨.columnsPast _, ?_⟩
  have hcolumn : s.value (m + n) (.call "COLUMN".toList []) = .number (Arithmetic.ofNat (m + n)) := by
    rw [Spreadsheet.value_call]
    rfl
  have hl : (s.value (m + n) (.call "COLUMN".toList [])).Is (Arithmetic.ofNat (m + n)) := hcolumn ▸ .number
  have hr : (s.value (m + n) (signed (Decimal.intDigits n))).Is (Arithmetic.ofNat n) :=
    Spreadsheet.value_intDigits hs n ▸ .number
  rw [CellFormula.term, Spreadsheet.value_binary .subtract hl hr, Value.compute, hα.ofNat_sub]
  exact .number

/-! ### Running functions -/

theorem computes_counted (hα : Exact α) (hs : s.Counts) (hm : Month c l p) (hp : position ≤ p) {x : Float}
    {f : CellFormula} (hx : s.Agrees x) (h : countedFormula (.ofLayout l p) x position = .ok f) :
    Computes s (l.firstColumn + p) f (foldMonths (· + ·) 0 (fun _ => (Arithmetic.literal x : α)) 0 position) := by
  have hmonths : Computes s (l.firstColumn + p) (.columnsPast ((l.firstColumn : Int) - 1 + (p - position)))
      (Arithmetic.ofNat (position + 1) : α) := by
    have hfirst := hm.firstColumn
    have := computes_columnsPast hα hs (position + 1) (l.firstColumn - 1 + (p - position))
    rwa [show position + 1 + (l.firstColumn - 1 + (p - position)) = l.firstColumn + p by omega,
      show ((l.firstColumn - 1 + (p - position) : Nat) : Int) = (l.firstColumn : Int) - 1 + (p - position) by omega] at this
  rw [hα.foldMonths_const]
  unfold countedFormula at h
  dsimp only at h
  split at h
  · next hone =>
    cases h
    rw [hx.one hone, hα.one_mul]
    exact hmonths
  · obtain ⟨g, hg, rfl⟩ := map_eq_ok_iff.mp h
    exact (computes_number hx hg).binary hα hs hmonths

theorem Mirrors.computes_sum (h : Mirrors s c l e) (hr : r ∈ e.references) (hm : Month c l p) (hp : position ≤ p)
    {range : RowRange} (hc : (Surroundings.ofLayout l p).range r position = .ok range) (column : Nat) :
    Computes s column (.sum range) (foldMonths (· + ·) 0 (valueAt c (.reference r)) 0 position) := by
  obtain ⟨hexists, hv⟩ := h.value_range hr hm hp hc column
  refine ⟨.sum hexists, ?_⟩
  rw [CellFormula.term, Spreadsheet.value_sum hv, ← Formula.foldl_tabulate]
  exact .number

theorem Mirrors.computes_product (h : Mirrors s c l e) (hr : r ∈ e.references) (hm : Month c l p) (hp : position ≤ p)
    {range : RowRange} (hc : (Surroundings.ofLayout l p).range r position = .ok range) (column : Nat) :
    Computes s column (.product range) (foldMonths (· * ·) 1 (valueAt c (.reference r)) 0 position) := by
  obtain ⟨hexists, hv⟩ := h.value_range hr hm hp hc column
  refine ⟨.product hexists, ?_⟩
  rw [CellFormula.term, Spreadsheet.value_product hv, ← Formula.foldl_tabulate]
  exact .number

theorem Mirrors.computes_countNonzero (h : Mirrors s c l e) (hr : r ∈ e.references) (hm : Month c l p)
    (hp : position ≤ p) {range : RowRange} (hc : (Surroundings.ofLayout l p).range r position = .ok range) (column : Nat) :
    Computes s column (.countNonzero range) (foldMonths countStep 0 (valueAt c (.reference r)) 0 position) := by
  obtain ⟨hexists, hv⟩ := h.value_range hr hm hp hc column
  refine ⟨.countNonzero hexists, ?_⟩
  rw [CellFormula.term, Spreadsheet.value_countNonzero hv, ← Formula.foldl_tabulate]
  exact .number

omit [Arithmetic α] in
theorem zipWith_tabulate (op : α → α → α) (x y : Nat → α) (n : Nat) :
    List.zipWith op (tabulate n x) (tabulate n y) = tabulate n fun i => op (x i) (y i) := by
  simp [tabulate, List.zipWith_map, List.zipWith_self]

theorem Mirrors.computes_sumsUp (h : Mirrors s c l e) (hα : Exact α) (hs : s.Counts) (hm : Month c l p)
    (hp : position ≤ p) {f : CellFormula} (hf : SumsUp (.ofLayout l p) e position f) :
    Computes s (l.firstColumn + p) f (foldMonths (· + ·) 0 (valueAt c e) 0 position) := by
  cases hf with
  | reference hrange => exact h.computes_sum (by simp [Expr.references]) hm hp hrange _
  | @product a b _ ra rb ha hb =>
    obtain ⟨hea, hva⟩ := h.value_range (r := a) (by simp [Expr.references]) hm hp ha (l.firstColumn + p)
    obtain ⟨heb, hvb⟩ := h.value_range (r := b) (by simp [Expr.references]) hm hp hb (l.firstColumn + p)
    refine ⟨.sumOfProducts hea heb, ?_⟩
    rw [CellFormula.term, Spreadsheet.value_sumOfProducts hva hvb, zipWith_tabulate, Formula.foldl_tabulate]
    exact .number
  | @sum a b _ ra rb ha hb =>
    have hsa := h.computes_sum (r := a) (by simp [Expr.references]) hm hp ha (l.firstColumn + p)
    have hsb := h.computes_sum (r := b) (by simp [Expr.references]) hm hp hb (l.firstColumn + p)
    have := hsa.binary (o := .add) hα hs hsb
    rwa [Operator.apply, ← hα.foldMonths_add] at this
  | @number _ _ _ x hx hf =>
    have := computes_counted hα hs hm hp (h.numbers x (Expr.mem_numbers_of_asNumber? hx)) hf
    rwa [show valueAt c e = fun _ => Arithmetic.literal x from funext (h.valueAt_eq hx)]

/-! ### Functions of a month -/

theorem allItems_of_computes {fs : List CellFormula} {xs : List α} (h : List.Forall₂ (Computes s column) fs xs) :
    Value.allItems ((CellFormula.term.terms fs).map (s.value column)) = some xs := by
  refine Value.allItems_of_forall₂ ?_
  induction h with
  | nil => exact .nil
  | cons hf _ ih => exact .cons hf.value ih

theorem regular_of_computes {fs : List CellFormula} {xs : List α} (h : List.Forall₂ (Computes s column) fs xs) :
    ∀ f ∈ fs, f.Regular := by
  induction h with
  | nil => exact fun _ hf => absurd hf List.not_mem_nil
  | cons hf _ ih => exact List.forall_mem_cons.mpr ⟨hf.regular, ih⟩

theorem computes_fold {f : Function} {fold : List α → α} {fs : List CellFormula} {xs : List α}
    (hf : f.isTemporal = false)
    (happly : ∀ vs, Value.apply column f.name vs = .ofOption ((Value.allItems vs).map fold))
    (h : List.Forall₂ (Computes s column) fs xs) : Computes s column (.call f fs) (fold xs) := by
  refine ⟨.call hf (regular_of_computes h), ?_⟩
  rw [CellFormula.term, Spreadsheet.value_call, happly, allItems_of_computes h]
  exact .number

theorem computes_abs {f : CellFormula} {x : α} (h : Computes s column f x) :
    Computes s column (.call .abs [f]) (Arithmetic.magnitude x) := by
  refine ⟨.call rfl (List.forall_mem_singleton.mpr h.regular), ?_⟩
  change (s.value column (.call "ABS".toList [f.term])).Is _
  rw [Spreadsheet.value_call]
  change Value.Is _ (.ofOption ((s.value column f.term).scalar.map _))
  rw [h.value.scalar]
  exact .number

/-- A function that looks at one month only computes its value from those of its arguments. -/
theorem computes_call {f : Function} {es : List Expr} {fs : List CellFormula} (hf : f.isTemporal = false)
    (htakes : f.takes es.length = true)
    (h : List.Forall₂ (Computes s column) fs (es.map fun e => valueAt c e position)) :
    Computes s column (.call f fs) (valueAt c (.call f es) position) := by
  rw [Formula.valueAt_call]
  have harguments : (es.map (valueAt c)).map (· position) = es.map fun e => valueAt c e position := List.map_map
  cases f with
  | max | min =>
    simp only [Function.valueAt, harguments]
    exact computes_fold rfl (fun _ => rfl) h
  | abs =>
    obtain ⟨e, rfl⟩ := List.length_eq_one_iff.mp (Function.eq_of_takes htakes rfl rfl)
    cases h with
    | cons he hnil =>
      cases hnil
      exact computes_abs he
  | _ => cases hf

/-! ### Shifts -/

theorem landing_on {target : Nat} {k : Int} (hp : position < UInt32.size) (hk : 0 ≤ k) {s : Surroundings}
    (h : s.landing position (saturate k) = .on target) : (position : Int) - k = target := by
  have hp : position < 4294967296 := hp
  have htarget := (landing_eq_on_iff.mp h).1
  simp only [saturate_eq] at htarget
  omega

theorem landing_before {k : Int} (hp : position < UInt32.size) {s : Surroundings}
    (h : s.landing position (saturate k) = .before) : (position : Int) - k < 0 := by
  have hp : position < 4294967296 := hp
  have hbefore := landing_eq_before_iff.mp h
  simp only [saturate_eq] at hbefore
  omega

/-! ### Conversion -/

/-- What an expression is converted to for some month computes its value in that month. -/
theorem Mirrors.computes (h : Mirrors s c l e) (hα : Exact α) (hs : s.Counts) (hm : Month c l p) {f : CellFormula}
    (hf : Converts (.ofLayout l p) e position f) (hp : position ≤ p) :
    Computes s (l.firstColumn + p) f (valueAt c e position) := by
  -- Shifts convert for earlier months, so the induction is over all months up to the one of the cell.
  induction hf with
  | number hf => exact computes_number (h.numbers _ (by simp [Expr.numbers])) hf
  | reference hcell => exact h.computes_cell (by simp [Expr.references]) hm hp hcell
  | negate _ ih =>
    obtain ⟨hregular, hv⟩ := ih h.of_negate hp
    refine ⟨.negate hregular, ?_⟩
    rw [CellFormula.term, Spreadsheet.value_negate hv]
    exact .number
  | binary o _ _ ihl ihr =>
    rw [Formula.valueAt_binary]
    exact (ihl h.of_binary.1 hp).binary hα hs (ihr h.of_binary.2 hp)
  | call hf htakes hlength _ ih =>
    refine computes_call hf htakes (List.forall₂_map_right_iff.mpr (List.Forall₂.flip ?_))
    exact List.forall₂_iff_zip.mpr ⟨hlength, fun hmem => ih hmem (h.of_call _ (List.of_mem_zip hmem).1) hp⟩
  | cumsum hsum =>
    rw [Formula.valueAt_call]
    exact (h.of_call _ (by simp)).computes_sumsUp hα hs hm hp hsum
  | cumprod hrange =>
    rw [Formula.valueAt_call]
    exact h.computes_product (by simp [Expr.references, Expr.references.referencesOfAll]) hm hp hrange _
  | count hrange =>
    rw [Formula.valueAt_call]
    exact h.computes_countNonzero (by simp [Expr.references, Expr.references.referencesOfAll]) hm hp hrange _
  | prevsumFirst hf =>
    rw [Formula.valueAt_call]
    exact computes_zero hα hs hf
  | prevsum hsum =>
    rw [Formula.valueAt_call]
    exact (h.of_call _ (by simp)).computes_sumsUp hα hs hm (by omega) hsum
  | before hshifts hl hf =>
    have := landing_before (hm.position_lt hp) hl
    rw [h.valueAt_shifts hshifts, lag, if_neg (by omega)]
    exact computes_zero hα hs hf
  | on hshifts hl _ ih =>
    have hk := h.nonneg_of_shifts hshifts
    have htarget := landing_on (hm.position_lt hp) hk hl
    have hperiods := hm.periods
    rw [h.valueAt_shifts hshifts, lag, if_pos (by omega), htarget, Int.toNat_natCast]
    exact ih (h.of_shifts hshifts) (by omega)

theorem Mirrors.convertsTo (h : Mirrors s c l e) (hα : Exact α) (hs : s.Counts) (hm : Month c l p)
    (he : e.Applied) (position : Nat) (f : CellFormula) (hf : convertExpr (.ofLayout l p) e position = .ok f)
    (hp : position ≤ p) : Computes s (l.firstColumn + p) f (valueAt c e position) :=
  h.computes hα hs hm (converts_of_convertExpr he hf) hp

end MonthlyModel.Sheet
