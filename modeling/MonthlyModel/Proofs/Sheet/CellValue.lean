import Mathlib
import MonthlyModel.Proofs.Sheet.Conversion
import MonthlyModel.Proofs.Sheet.Rational

/-! The cell formula of a month has the value that the evaluator gives to the month.

A spreadsheet shows the series of a formula's references in the rows of a layout, over exact numbers.
Whenever the formula can be evaluated and converted for a month, what the spreadsheet reads and
computes in the cell is the value of the formula in that month. Columns are counted in 32 bits, so the
position of the month has to fit into them. -/

namespace MonthlyModel

namespace Sheet

open MonthlyModel.Formula (Expr Context Evaluation valueAt tabulate parse evaluate evaluateText isBlankFormula tokens
  ofTokens body)

/-- A layout that the operations on layouts lead to. -/
inductive Layout.Built : Layout → Prop where
  | empty : Built .empty
  | withFirstColumn {l : Layout} (h : Built l) (column : Nat) : Built (l.withFirstColumn column)
  | insert {l : Layout} (h : Built l) (r : Reference) (row : CellRow) : Built (l.insert r row)

theorem Layout.Built.firstColumn_pos {l : Layout} (h : l.Built) : 0 < l.firstColumn := by
  induction h with
  | empty => decide
  | withFirstColumn _ column => exact Nat.lt_of_lt_of_le Nat.zero_lt_one (Nat.le_max_right column 1)
  | insert _ _ _ ih => exact ih

variable {α : Type} [Arithmetic α] {c : Context α} {s : Spreadsheet α} {l : Layout} {cs : List Char} {e : Expr}

/-- A spreadsheet shows a formula: it calculates with exact numbers, means by the numbers of the formula
    what the evaluator does, and has the series of the formula's references in their rows. -/
structure Shows (s : Spreadsheet α) (c : Context α) (l : Layout) (cs : List Char) : Prop where
  exact : Exact α
  counts : s.Counts
  numbers : ∀ e, parse cs = .ok e → ∀ x ∈ e.numbers, s.Agrees x
  cells : ∀ e, parse cs = .ok e → ∀ r ∈ e.references, ∀ row, l.get? r = some row → ∀ xs, c.resolve r = .ok xs →
    ∀ j x, xs[j]? = some x → s.cell row.sheet (l.firstColumn + j) row.row = x

/-- No shift of a formula has a negative offset. -/
def OnlyDelays (cs : List Char) : Prop :=
  ∀ e, parse cs = .ok e → ∀ o ∈ e.offsets, ∀ k, o.asNumber?.bind Decimal.whole? = some k → 0 ≤ k

theorem Shows.carries (h : Shows s c l cs) (he : parse cs = .ok e) (hc : c.Supports e) : Carries s c l e := by
  refine ⟨fun r hr row hrow j hj => ?_, h.numbers e he⟩
  obtain ⟨xs, hxs⟩ := Context.reads_iff.mp (hc.reads r hr)
  have hlength := (Context.resolve_eq_ok_iff.mp hxs).2
  have hj : j < xs.length := hlength ▸ hj
  rw [Formula.valueAt_reference hxs, List.getD_eq_getElem _ _ hj]
  exact h.cells e he r hr row hrow xs hxs j _ (List.getElem?_eq_getElem hj)

theorem Shows.mirrors (h : Shows s c l cs) (hd : OnlyDelays cs) (he : parse cs = .ok e) (hc : c.Supports e) :
    Mirrors s c l e :=
  ⟨h.carries he hc, hd e he⟩

theorem values_of_error_eq_none (hblank : isBlankFormula cs = false) (he : parse cs = .ok e)
    (h : (evaluateText c cs).error = none) :
    c.Supports e ∧ (evaluateText c cs).values = tabulate c.periods (valueAt c e) := by
  have htext : evaluateText c cs = .ofExcept c.periods (evaluate c e) := by
    rw [evaluateText, hblank, if_neg Bool.false_ne_true, he]
    rfl
  rw [htext] at h ⊢
  cases hev : evaluate c e with
  | error _ =>
    rw [hev] at h
    cases h
  | ok xs =>
    have hsupports := Formula.supports_of_evaluate (Formula.applied_of_parse he) hev
    refine ⟨hsupports, ?_⟩
    rw [← hev, Formula.evaluate_of_supports (Formula.applied_of_parse he) hsupports]
    rfl

theorem Computes.cellValue? {column : Nat} {f : CellFormula} {x : α} (h : Computes s column f x) (home : String) :
    s.cellValue? home column (f.content home) = some x := by
  rw [Spreadsheet.cellValue?, h.regular.readFormula]
  exact h.value.scalar

/-- What a formula is converted to for a month whose column can be counted computes, in that column, the value
    that the evaluator gives to the month. -/
theorem value_of_convert {p : Nat} {f : CellFormula} (h : Shows s c l cs) (hl : l.Built) (hd : OnlyDelays cs)
    (hev : (evaluateText c cs).error = none) (hf : convert cs l p = .ok f) (hp : p < c.periods)
    (hcounted : l.firstColumn + p < UInt32.size) (home : String) :
    ∃ x, (evaluateText c cs).values[p]? = some x ∧
      s.cellValue? home (l.firstColumn + p) (f.content home) = some x := by
  unfold convert at hf
  split at hf
  · next hblank =>
    have hvalues : (evaluateText c cs).values = List.replicate c.periods 0 := by rw [evaluateText, if_pos hblank]
    have hzero : numberFormula 0 = .ok f := by
      rw [← hf]
      exact if_pos (by decide)
    refine ⟨0, ?_, (computes_zero h.exact h.counts hzero).cellValue? home⟩
    rw [hvalues, List.getElem?_replicate, if_pos hp]
  · next hblank =>
    split at hf
    · cases hf
    · split at hf
      · cases hf
      · next e he =>
        obtain ⟨hsupports, hvalues⟩ := values_of_error_eq_none (Bool.eq_false_iff.mpr hblank) he hev
        have hm : Month c l p := ⟨hl.firstColumn_pos, hp, hcounted⟩
        refine ⟨valueAt c e p, ?_, ?_⟩
        · rw [hvalues, Formula.getElem?_tabulate _ hp]
        · exact ((h.mirrors hd he hsupports).convertsTo h.exact h.counts hm (Formula.applied_of_parse he) p f hf
            (Nat.le_refl p)).cellValue? home

/-! ### A quarter -/

/-- Three months in which every calculation has the values 1, 2 and 4. -/
def quarter : Context ℚ :=
  ⟨.consecutive ⟨24300⟩ 3, .empty 3, fun _ => some [1, 2, 4]⟩

/-- A row for one calculation. -/
def inputs : Layout :=
  Layout.empty.insert (.calculation 4) ⟨"Inputs", 10⟩

/-- The values of the quarter in every row. -/
def quarterSheet : Spreadsheet ℚ :=
  .rational fun _ column _ => [1, 2, 4].getD (column - 5) 0

theorem cell_quarterSheet {id : CalculationId} {xs : List ℚ} (hxs : quarter.resolve (.calculation id) = .ok xs)
    {j : Nat} {x : ℚ} (hx : xs[j]? = some x) (sheet : String) (row : Nat) : quarterSheet.cell sheet (5 + j) row = x := by
  obtain rfl : [1, 2, 4] = xs := Except.ok.inj hxs
  change List.getD _ (5 + j - 5) 0 = x
  rw [Nat.add_sub_cancel_left, List.getD_eq_getElem?_getD, hx, Option.getD_some]

theorem get?_inputs : inputs.get? (.calculation 4) = some ⟨"Inputs", 10⟩ := by
  decide

theorem built_inputs : inputs.Built :=
  .insert .empty _ _

def literalOne : Float :=
  Decimal.nearest 1 0

/-- One more than the value of the month before. -/
def increased : Expr :=
  .binary .add (.number literalOne) (.call .shift [.reference (.calculation 4), .number literalOne])

theorem parse_increased : parse "1+SHIFT(R4,1)".toList = .ok increased := by
  have htokens : tokens (body "1+SHIFT(R4,1)".toList) = [.number literalOne, .operator .add, .word "SHIFT", .open,
      .reference (.calculation 4), .comma, .number literalOne, .close] := by
    with_unfolding_all rfl
  have hread (x y : Float) : ofTokens [.number x, .operator .add, .word "SHIFT", .open,
      .reference (.calculation 4), .comma, .number y, .close] =
        .ok (.binary .add (.number x) (.call .shift [.reference (.calculation 4), .number y])) := by cbv
  have hblank : (body "1+SHIFT(R4,1)".toList).all Text.isBlank = false := by decide
  rw [parse, hblank, if_neg Bool.false_ne_true, htokens]
  exact hread literalOne literalOne

theorem whole?_one : Decimal.whole? literalOne = some 1 := by
  decide

theorem agrees_one : quarterSheet.Agrees literalOne :=
  Spreadsheet.agrees_rational (n := 1) (by decide +kernel) (by decide +kernel) (by decide +kernel) (fun _ => rfl)
    whole?_one

theorem shows_quarter : Shows quarterSheet quarter inputs "1+SHIFT(R4,1)".toList := by
  refine ⟨exact_rat, Spreadsheet.counts_rational _, fun e he => ?_, fun e he => ?_⟩
  · cases parse_increased.symm.trans he
    exact List.forall_mem_cons.mpr ⟨agrees_one, List.forall_mem_singleton.mpr agrees_one⟩
  · cases parse_increased.symm.trans he
    refine List.forall_mem_singleton.mpr fun row hrow xs hxs j x hx => ?_
    cases get?_inputs.symm.trans hrow
    exact cell_quarterSheet hxs hx _ _

theorem onlyDelays_increased : OnlyDelays "1+SHIFT(R4,1)".toList := by
  intro e he
  cases parse_increased.symm.trans he
  refine List.forall_mem_singleton.mpr fun k hk => ?_
  cases whole?_one.symm.trans hk
  decide

theorem supports_increased : quarter.Supports increased := by
  refine ⟨List.forall_mem_singleton.mpr (Context.reads_iff.mpr ⟨[1, 2, 4], rfl⟩), ?_⟩
  exact List.forall_mem_singleton.mpr ⟨1, fun _ _ => agrees_one.whole.trans whole?_one⟩

theorem error_increased : (evaluateText quarter "1+SHIFT(R4,1)".toList).error = none := by
  have hblank : isBlankFormula "1+SHIFT(R4,1)".toList = false := by decide
  rw [evaluateText, hblank, if_neg Bool.false_ne_true, parse_increased]
  change (Evaluation.ofExcept _ (evaluate quarter increased)).error = none
  rw [Formula.evaluate_of_supports (Formula.applied_of_parse parse_increased) supports_increased]
  rfl

theorem cell_inputs {position : Nat} (h : inputs.firstColumn + position < UInt32.size) (p : Nat) :
    (Surroundings.ofLayout inputs p).cell (.calculation 4) position = .ok ⟨"Inputs", 10, 5 + position⟩ := by
  rw [Surroundings.cell, row_eq_ok_iff.mpr get?_inputs, Except.map, column_ofLayout h]
  rfl

theorem convert_increased : convert "1+SHIFT(R4,1)".toList inputs 2 =
    .ok (.binary .add (.number literalOne) (.cell ⟨"Inputs", 10, 6⟩)) := by
  have hblank : isBlankFormula "1+SHIFT(R4,1)".toList = false := by decide
  have hlooks : looksLikeFormula "1+SHIFT(R4,1)".toList = true := by with_unfolding_all rfl
  have hnumber : numberFormula literalOne = .ok (.number literalOne) := if_pos (by decide)
  have hoffset : writtenOffset (.number literalOne) = .ok 1 := by
    have hwhole : (Expr.number literalOne).asNumber?.bind Decimal.whole? = some 1 := whole?_one
    rw [writtenOffset, hwhole]
    rfl
  have hlanding : (Surroundings.ofLayout inputs 2).landing 2 1 = .on 1 := rfl
  have hshift : convertExpr (.ofLayout inputs 2) (.call .shift [.reference (.calculation 4), .number literalOne]) 2 =
      .ok (.cell ⟨"Inputs", 10, 6⟩) := by
    rw [convertExpr, hoffset]
    change convertShifted _ _ _ 1 = _
    rw [convertShifted, hlanding]
    dsimp only
    rw [convertExpr, cell_inputs (by decide)]
    rfl
  rw [convert, hblank, hlooks, parse_increased]
  dsimp only
  rw [increased, convertExpr, convertExpr, hnumber, hshift]
  rfl

/-- One more than the value of the month before, in the third month of a quarter. -/
theorem value_of_convert_quarter :
    let cs := "1+SHIFT(R4,1)".toList
    let f : CellFormula := .binary .add (.number literalOne) (.cell ⟨"Inputs", 10, 6⟩)
    Shows quarterSheet quarter inputs cs ∧ inputs.Built ∧ OnlyDelays cs ∧ (evaluateText quarter cs).error = none ∧
      convert cs inputs 2 = .ok f ∧ 2 < quarter.periods ∧ inputs.firstColumn + 2 < UInt32.size ∧
      ∃ x, (evaluateText quarter cs).values[2]? = some x ∧
        quarterSheet.cellValue? "Main" (inputs.firstColumn + 2) (f.content "Main") = some x :=
  ⟨shows_quarter, built_inputs, onlyDelays_increased, error_increased, convert_increased, by decide, by decide,
    value_of_convert shows_quarter built_inputs onlyDelays_increased error_increased convert_increased (by decide) (by decide)
      "Main"⟩

/-! ### Columns that 32 bits do not count -/

/-- `n` months without a value before one that has the value 1. -/
def late (n : Nat) : Context ℚ :=
  ⟨.consecutive ⟨24300⟩ (n + 1), .empty (n + 1), fun _ => some (List.replicate n 0 ++ [1])⟩

/-- The value 1 in the column of the last of these months. -/
def lateSheet (n : Nat) : Spreadsheet ℚ :=
  .rational fun _ column _ => if column = 5 + n then 1 else 0

theorem parse_alone : parse "R4".toList = .ok (.reference (.calculation 4)) := by
  cbv

theorem periods_late (n : Nat) : (late n).periods = n + 1 := by
  simp [late, Context.periods, Timeline.length, Timeline.consecutive]

theorem resolve_late (n : Nat) : (late n).resolve (.calculation 4) = .ok (List.replicate n 0 ++ [1]) := by
  refine Context.resolve_eq_ok_iff.mpr ⟨rfl, ?_⟩
  rw [periods_late, List.length_append, List.length_replicate, List.length_singleton]

theorem getElem?_late (n : Nat) : (List.replicate n (0 : ℚ) ++ [1])[n]? = some 1 := by
  rw [List.getElem?_append_right (by rw [List.length_replicate]), List.length_replicate, Nat.sub_self]
  rfl

theorem shows_late (n : Nat) : Shows (lateSheet n) (late n) inputs "R4".toList := by
  refine ⟨exact_rat, Spreadsheet.counts_rational _, fun e he => ?_, fun e he => ?_⟩
  · cases parse_alone.symm.trans he
    exact fun x hx => absurd hx List.not_mem_nil
  · cases parse_alone.symm.trans he
    refine List.forall_mem_singleton.mpr fun row hrow xs hxs j x hx => ?_
    cases get?_inputs.symm.trans hrow
    cases (resolve_late n).symm.trans hxs
    change (if 5 + j = 5 + n then (1 : ℚ) else 0) = x
    by_cases hj : j = n
    · rw [hj, getElem?_late] at hx
      rw [if_pos (by rw [hj])]
      exact Option.some.inj hx
    · have hlt : j < n + 1 := by
        have := (List.getElem?_eq_some_iff.mp hx).1
        rwa [List.length_append, List.length_replicate] at this
      rw [List.getElem?_append_left (by rw [List.length_replicate]; omega),
        List.getElem?_replicate, if_pos (by omega)] at hx
      rw [if_neg (by omega)]
      exact Option.some.inj hx

theorem evaluateText_late (n : Nat) :
    evaluateText (late n) "R4".toList = ⟨List.replicate n 0 ++ [1], none⟩ := by
  have hblank : isBlankFormula "R4".toList = false := by decide
  rw [evaluateText, hblank, if_neg Bool.false_ne_true, parse_alone]
  change Evaluation.ofExcept _ (evaluate (late n) (.reference (.calculation 4))) = _
  rw [evaluate, resolve_late]
  rfl

/-- At positions that look like the first one to 32 bits, the cell of the first month is written. -/
theorem convert_late {n : Nat} (hn : (5 + n) % UInt32.size = 5) :
    convert "R4".toList inputs n = .ok (.cell ⟨"Inputs", 10, 5⟩) := by
  have hblank : isBlankFormula "R4".toList = false := by decide
  have hlooks : looksLikeFormula "R4".toList = true := by with_unfolding_all rfl
  have hcolumn : (Surroundings.ofLayout inputs n).column n = 5 := hn
  rw [convert, hblank, hlooks, parse_alone]
  dsimp only
  rw [convertExpr, Surroundings.cell, row_eq_ok_iff.mpr get?_inputs, Except.map, hcolumn]
  rfl

theorem cellValue?_late {n : Nat} (hn : 0 < n) (column : Nat) :
    (lateSheet n).cellValue? "Main" column ((CellFormula.cell ⟨"Inputs", 10, 5⟩).content "Main") = some 0 := by
  have hregular : (CellFormula.cell ⟨"Inputs", 10, 5⟩).Regular := .cell (Nat.succ_pos 4)
  rw [Spreadsheet.cellValue?, hregular.readFormula, Option.bind_some, value_cell]
  exact congrArg some (if_neg (fun h : 5 = 5 + n => by omega))

/-- The last month has the value 1, and its cell the value 0. -/
theorem not_value_of_convert_late :
    let n := UInt32.size
    let cs := "R4".toList
    let f : CellFormula := .cell ⟨"Inputs", 10, 5⟩
    Shows (lateSheet n) (late n) inputs cs ∧ inputs.Built ∧ OnlyDelays cs ∧ (evaluateText (late n) cs).error = none ∧
      convert cs inputs n = .ok f ∧ n < (late n).periods ∧
      ¬ ∃ x, (evaluateText (late n) cs).values[n]? = some x ∧
        (lateSheet n).cellValue? "Main" (inputs.firstColumn + n) (f.content "Main") = some x := by
  refine ⟨shows_late _, built_inputs, ?_, by rw [evaluateText_late], convert_late (by decide), ?_, ?_⟩
  · intro e he
    cases parse_alone.symm.trans he
    exact fun o ho => absurd ho List.not_mem_nil
  · rw [periods_late]
    exact Nat.lt_succ_self _
  · rintro ⟨x, hvalues, hcell⟩
    rw [evaluateText_late, getElem?_late] at hvalues
    rw [cellValue?_late (by decide)] at hcell
    cases hvalues
    cases hcell

end Sheet

end MonthlyModel
