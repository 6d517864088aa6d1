import Mathlib
import MonthlyModel.Proofs.Sheet.Beyond
import MonthlyModel.Proofs.Sheet.CellValue

/-! Exported shifts that lead past the last month.

To the evaluator there are zeros after the last month. The cell of such a month has the formula of the
shifted expression, in a column where the rows of its references are empty. The two agree exactly if the
expression comes to zero there: references do, and numbers do not. -/

namespace MonthlyModel

open Formula (Expr Operator Context parse evaluate evaluateText valueAt numberAt before tokens body ofTokens)

variable {α : Type} [Arithmetic α]

/-! ### Expressions without numbers -/

/-- References, and what negations, sums, differences and products make of them. -/
inductive Formula.Expr.Vanishing : Expr → Prop where
  | reference (r : Reference) : Vanishing (.reference r)
  | negate {e : Expr} (he : Vanishing e) : Vanishing (.negate e)
  | binary {o : Operator} {l r : Expr} (ho : o = .add ∨ o = .subtract ∨ o = .multiply) (hl : Vanishing l)
    (hr : Vanishing r) : Vanishing (.binary o l r)

namespace Sheet

variable {w : Worksheet α} {c : Context α} {l : Layout} {cs : List Char} {e : Expr} {p n : Nat} {f : CellFormula}

theorem Ends.neg_zero (h : Ends w c l) : - (0 : α) = 0 := by
  have := h.exact.add_sub_cancel 0 (-0)
  rw [h.exact.zero_add, h.sub_neg] at this
  rwa [h.exact.add_comm, h.exact.zero_add] at this

theorem Ends.sub_zero (h : Ends w c l) : (0 : α) - 0 = 0 := by
  have := h.exact.add_sub_cancel 0 0
  rwa [h.exact.zero_add] at this

theorem Ends.numberAt_vanishing (h : Ends w c l) (he : e.Vanishing) {i : Nat} (hi : c.periods ≤ i) :
    (numberAt c e i).getD 0 = 0 := by
  induction he with
  | reference r => simp [numberAt, Nat.not_lt.mpr hi]
  | negate _ ih => simp [numberAt, ih, h.neg_zero]
  | binary ho _ _ ihl ihr =>
    rcases ho with rfl | rfl | rfl
    · simp [numberAt, ihl, ihr, Operator.apply, h.exact.zero_add]
    · simp [numberAt, ihl, ihr, Operator.apply, h.sub_zero]
    · simp [numberAt, ihr, Operator.apply, h.exact.mul_zero]

/-! ### Rows of an export -/

theorem ofSource_eq_ok {periods : Nat} {source : ExportSource} {row : ExportRow}
    (h : ExportRow.ofSource l periods source = .ok row) :
    l.get? source.calculation.reference = some row.place ∧ source.values.length = periods ∧
      row.cells = (source.values.zipIdx.map fun x => .ofAttempt (source.formulaAt l x.2, x.1)) ∧
      row.degraded = source.values.zipIdx.findSome? fun x => reason? (source.formulaAt l x.2, x.1) := by
  unfold ExportRow.ofSource at h
  dsimp only at h
  split at h
  · cases h
  · next place hplace =>
    split at h
    · cases h
    · next hlength =>
      cases h
      refine ⟨hplace, not_not.mp hlength, ?_, ?_⟩
      · simp [List.map_map, Function.comp_def]
      · simp [List.findSome?_map, Function.comp_def]

/-- A calculation that is exported has the row of its own place in the plan. -/
theorem exists_row_of_plan {periods i : Nat} {sources : List ExportSource} {source : ExportSource} {plan : ExportPlan}
    (hplan : ExportPlan.ofSources l periods sources = .ok plan) (hsource : sources[i]? = some source) :
    ∃ row, plan.rows[i]? = some row ∧ ExportRow.ofSource l periods source = .ok row := by
  obtain ⟨rows, hrows, hplan⟩ := bind_eq_ok_iff.mp hplan
  obtain rfl := pure_eq_ok_iff.mp hplan
  exact getElem?_of_mapM hrows hsource

theorem formulaAt_of_cell {periods : Nat} {source : ExportSource} {row : ExportRow}
    (h : ExportRow.ofSource l periods source = .ok row) (hcell : row.cells[p]? = some (.formula f)) :
    p < periods ∧ source.formulaAt l p = .ok f := by
  obtain ⟨-, hlength, hcells, -⟩ := ofSource_eq_ok h
  rw [hcells, List.getElem?_map, List.getElem?_zipIdx, Option.map_map, Option.map_eq_some_iff] at hcell
  obtain ⟨x, hx, hattempt⟩ := hcell
  refine ⟨hlength ▸ (List.getElem?_eq_some_iff.mp hx).1, ?_⟩
  cases hformula : source.formulaAt l p with
  | error fault => simp [ExportCell.ofAttempt, hformula] at hattempt
  | ok g => simpa [ExportCell.ofAttempt, hformula] using hattempt

theorem formulaAt_of_plan {periods i : Nat} {sources : List ExportSource} {source : ExportSource} {plan : ExportPlan}
    {row : ExportRow} (hplan : ExportPlan.ofSources l periods sources = .ok plan) (hsource : sources[i]? = some source)
    (hrow : plan.rows[i]? = some row) (hcell : row.cells[p]? = some (.formula f)) :
    p < periods ∧ source.formulaAt l p = .ok f := by
  obtain ⟨row', hrow', hofSource⟩ := exists_row_of_plan hplan hsource
  obtain rfl : row' = row := Option.some.inj (hrow'.symm.trans hrow)
  exact formulaAt_of_cell hofSource hcell

/-- The export of one calculation that has a place and a value for each month. -/
theorem exists_plan_of_formulaAt {periods : Nat} {source : ExportSource} {place : CellRow} {x : Float}
    (hplace : l.get? source.calculation.reference = some place) (hlength : source.values.length = periods)
    (hx : source.values[p]? = some x) (hf : source.formulaAt l p = .ok f) : ∃ row,
    ExportPlan.ofSources l periods [source] = .ok ⟨periods, [row]⟩ ∧ row.place = place ∧
      row.cells[p]? = some (.formula f) := by
  obtain ⟨row, hrow⟩ : ∃ row, ExportRow.ofSource l periods source = .ok row := by
    unfold ExportRow.ofSource
    dsimp only
    rw [hplace]
    dsimp only
    rw [if_neg (not_not.mpr hlength)]
    exact ⟨_, rfl⟩
  obtain ⟨hrowPlace, -, hcells, -⟩ := ofSource_eq_ok hrow
  refine ⟨row, by rw [ExportPlan.ofSources, List.mapM_cons, hrow]; rfl, ?_, ?_⟩
  · exact Option.some.inj (hrowPlace.symm.trans hplace)
  · simp [hcells, hx, hf, ExportCell.ofAttempt]

theorem convert_of_formulaAt {source : ExportSource} (h : source.formulaAt l p = .ok f) :
    convert source.calculation.formula.toList l p = .ok f := by
  unfold ExportSource.formulaAt at h
  split at h
  · cases h
  · exact h

theorem convertExpr_of_convert (he : parse cs = .ok e) (h : convert cs l p = .ok f) :
    convertExpr (.ofLayout l p) e p = .ok f := by
  unfold convert at h
  rw [Formula.isBlankFormula_of_parse he, if_neg Bool.false_ne_true] at h
  split at h
  · cases h
  · rwa [he] at h

/-! ### Leads -/

/-- A formula takes an expression from `n` months ahead. -/
structure Leads (cs : List Char) (e : Expr) (n : Nat) : Prop where
  positive : 0 < n
  parses : ∃ o, parse cs = .ok (.call .shift [e, o]) ∧ o.asNumber?.bind Decimal.whole? = some (-n : Int)

/-- A worksheet shows a formula and ends with the last month. Taking away what is negative adds. -/
structure ShowsToEnd (w : Worksheet α) (c : Context α) (l : Layout) (cs : List Char) : Prop where
  shows : Shows w.toSpreadsheet c l cs
  sub_neg : ∀ x y : α, x - -y = x + y
  lastColumn : w.lastColumn + 1 = l.firstColumn + c.periods

theorem ShowsToEnd.ends (h : ShowsToEnd w c l cs) (hl : l.Built) : Ends w c l :=
  ⟨h.shows.exact, h.sub_neg, h.shows.counts, hl.firstColumn_pos, h.lastColumn⟩

/-- A lead stays on the sheet only where columns are still counted. -/
theorem lt_of_lead (h : convertShifted (.ofLayout l p) e p (saturate (-n)) = .ok f) :
    l.firstColumn + p < UInt32.size := by
  by_contra hp
  have hp : 4294967296 ≤ l.firstColumn + p := Nat.not_lt.mp hp
  have htarget : min (p : Int) 9223372036854775807 ≤ saturate (p - saturate (-n)) := by
    simp only [saturate_eq]
    omega
  have hpast : (Surroundings.ofLayout l p).landing p (saturate (-n)) = .past := by
    refine landing_eq_past_iff.mpr ⟨by omega, _, rfl, ?_⟩
    change 16384 < l.firstColumn + _
    omega
  rw [convertShifted, hpast] at h
  cases h

/-- What a lead is exported as computes the expression that many months ahead. -/
theorem cellValue?_lead {o : Expr} (h : Ends w c l) (hs : Carries w.toSpreadsheet c l (.call .shift [e, o]))
    (hparse : parse cs = .ok (.call .shift [e, o])) (ho : o.asNumber?.bind Decimal.whole? = some (-n : Int))
    (hf : convert cs l p = .ok f) (home : String) :
    w.cellValue? home (l.firstColumn + p) (f.content home) = some ((numberAt c e (p + n)).getD 0) := by
  have hconvert := convertExpr_of_convert hparse hf
  have hp : l.firstColumn + p < UInt32.size := by
    rw [convertExpr, writtenOffset, ho] at hconvert
    exact lt_of_lead hconvert
  have hnumber : numberAt c (.call .shift [e, o]) p = numberAt c e (p + n) := by
    rw [numberAt_shifts hs (.shift ho), before, if_neg (by omega)]
    congr 1
    omega
  obtain ⟨hregular, hv⟩ := h.denotes hs (converts_of_convertExpr (Formula.applied_of_parse hparse) hconvert) hp
  rw [hnumber] at hv
  rw [Worksheet.cellValue?, hregular.readFormula, Option.bind_some, hv.operand.scalar]

theorem values_lead {o : Expr} (hs : Carries w.toSpreadsheet c l (.call .shift [e, o]))
    (hparse : parse cs = .ok (.call .shift [e, o])) (ho : o.asNumber?.bind Decimal.whole? = some (-n : Int))
    (hev : (evaluateText c cs).error = none) (hp : p < c.periods) (hend : c.periods ≤ p + n) :
    (evaluateText c cs).values[p]? = some 0 := by
  obtain ⟨-, hvalues⟩ := values_of_error_eq_none (Formula.isBlankFormula_of_parse hparse) hparse hev
  have hwhole := (hs.of_call o (by simp)).whole?_valueAt ho p
  have hperiods : c.periods = c.timeline.length := rfl
  rw [hvalues, Formula.getElem?_tabulate _ hp, Formula.valueAt_call]
  simp [Formula.Function.valueAt, hwhole, Formula.lag]
  omega

/-- The exported cell of a lead past the last month denotes zero, as the evaluator has it, exactly if the
    expression that many months ahead comes to zero on a sheet that ends with the last month. -/
theorem lead_past_end {sources : List ExportSource} {source : ExportSource} {plan : ExportPlan} {row : ExportRow} {i : Nat}
    (hplan : ExportPlan.ofSources l c.periods sources = .ok plan) (hsource : sources[i]? = some source)
    (hrow : plan.rows[i]? = some row) (hcs : source.calculation.formula.toList = cs) (hlead : Leads cs e n)
    (hw : ShowsToEnd w c l cs) (hl : l.Built) (hev : (evaluateText c cs).error = none)
    (hcell : row.cells[p]? = some (.formula f)) (hend : c.periods ≤ p + n) :
    (evaluateText c cs).values[p]? = some 0 ∧
      (w.cellValue? row.place.sheet (l.firstColumn + p) (f.content row.place.sheet) = some 0 ↔
        (numberAt c e (p + n)).getD 0 = 0) ∧
      (e.Vanishing → w.cellValue? row.place.sheet (l.firstColumn + p) (f.content row.place.sheet) = some 0) := by
  subst hcs
  obtain ⟨o, hparse, ho⟩ := hlead.parses
  obtain ⟨hp, hformula⟩ := formulaAt_of_plan hplan hsource hrow hcell
  have hends := hw.ends hl
  have hsupports := (values_of_error_eq_none (Formula.isBlankFormula_of_parse hparse) hparse hev).1
  have hs := hw.shows.carries hparse hsupports
  have hcell := cellValue?_lead hends hs hparse ho (convert_of_formulaAt hformula) row.place.sheet
  refine ⟨values_lead hs hparse ho hev hp hend, ?_, fun he => ?_⟩
  · rw [hcell, Option.some.injEq]
  · rw [hcell, hends.numberAt_vanishing he hend]

/-! ### The last month of a quarter -/

/-- The sheet of the quarter with nothing after its three months. -/
def quarterEnd : Worksheet ℚ :=
  ⟨quarterSheet, 7⟩

/-- A layout with a row for the calculation that leads, too. -/
def ledger : Layout :=
  inputs.insert (.calculation 9) ⟨"Main", 2⟩

/-- An expression one month ahead. -/
def ahead (e : Expr) : Expr :=
  .call .shift [e, .negate (.number literalOne)]

def leading (text : String) : ExportSource :=
  ⟨.ofFormula 9 "Lead" text, [0, 0, 0], false⟩

theorem parse_aheadReference : parse "SHIFT(R4, -1)".toList = .ok (ahead (.reference (.calculation 4))) := by
  have htokens : tokens (body "SHIFT(R4, -1)".toList) = [.word "SHIFT", .open, .reference (.calculation 4), .comma,
      .operator .subtract, .number literalOne, .close] := by
    with_unfolding_all rfl
  have hread (x : Float) : ofTokens [.word "SHIFT", .open, .reference (.calculation 4), .comma, .operator .subtract,
      .number x, .close] = .ok (.call .shift [.reference (.calculation 4), .negate (.number x)]) := by cbv
  have hblank : (body "SHIFT(R4, -1)".toList).all Text.isBlank = false := by decide
  rw [parse, hblank, if_neg Bool.false_ne_true, htokens]
  exact hread literalOne

theorem parse_aheadOne : parse "SHIFT(1, -1)".toList = .ok (ahead (.number literalOne)) := by
  have htokens : tokens (body "SHIFT(1, -1)".toList) = [.word "SHIFT", .open, .number literalOne, .comma,
      .operator .subtract, .number literalOne, .close] := by
    with_unfolding_all rfl
  have hread (x y : Float) : ofTokens [.word "SHIFT", .open, .number x, .comma, .operator .subtract, .number y, .close] =
      .ok (.call .shift [.number x, .negate (.number y)]) := by cbv
  have hblank : (body "SHIFT(1, -1)".toList).all Text.isBlank = false := by decide
  rw [parse, hblank, if_neg Bool.false_ne_true, htokens]
  exact hread literalOne literalOne

theorem whole?_minusOne : Decimal.whole? (-literalOne) = some (-1) := by
  decide

theorem agrees_minusOne : quarterSheet.Agrees (-literalOne) :=
  Spreadsheet.agrees_rational (n := -1) (by decide +kernel) (by decide +kernel) (by decide +kernel) (by decide +kernel)
    whole?_minusOne

theorem built_ledger : ledger.Built :=
  .insert built_inputs _ _

theorem get?_ledger : ledger.get? (.calculation 4) = some ⟨"Inputs", 10⟩ := by
  decide

section
variable {e : Expr} {text : String} {f : CellFormula}

theorem leads_ahead (h : parse text.toList = .ok (ahead e)) : Leads text.toList e 1 :=
  ⟨Nat.one_pos, _, h, whole?_minusOne⟩

/-- The quarter shows a lead of an expression that reads one calculation at most. -/
theorem showsToEnd_ahead (h : parse text.toList = .ok (ahead e)) (hnumbers : ∀ x ∈ e.numbers, x = literalOne)
    (hreferences : ∀ r ∈ e.references, r = .calculation 4) : ShowsToEnd quarterEnd quarter ledger text.toList := by
  refine ⟨⟨exact_rat, Spreadsheet.counts_rational _, fun e' he => ?_, fun e' he => ?_⟩, fun x y => sub_neg_eq_add x y, rfl⟩
  · cases h.symm.trans he
    intro x hx
    have hx : x ∈ e.numbers ∨ x = -literalOne ∨ x = literalOne := by
      simpa [ahead, Expr.numbers_call, Expr.numbers, Expr.asNumber?] using hx
    rcases hx with hx | rfl | rfl
    · exact hnumbers x hx ▸ agrees_one
    · exact agrees_minusOne
    · exact agrees_one
  · cases h.symm.trans he
    intro r hr row hrow xs hxs j x hx
    have hr : r ∈ e.references := by simpa [ahead, Expr.references_call, Expr.references] using hr
    obtain rfl := hreferences r hr
    cases get?_ledger.symm.trans hrow
    exact cell_quarterSheet hxs hx _ _

theorem error_ahead (h : parse text.toList = .ok (ahead e)) (he : quarter.Supports e) :
    (evaluateText quarter text.toList).error = none := by
  have hoffset : quarter.Supports (.negate (.number literalOne)) := ⟨by simp [Expr.references], by simp [Expr.offsets]⟩
  have hsupports : quarter.Supports (ahead e) := by
    refine (Formula.supports_call rfl).mpr ⟨by simp [he, hoffset], fun _ => ⟨-1, fun i _ => ?_⟩⟩
    change Arithmetic.whole? (- Arithmetic.literal literalOne : ℚ) = some (-1)
    rw [← agrees_one.negated, agrees_minusOne.whole, whole?_minusOne]
  rw [Formula.evaluateText_of_parse h, Formula.evaluate_of_supports (Formula.applied_of_parse h) hsupports]
  rfl

theorem convert_ahead (h : parse text.toList = .ok (ahead e)) (hlooks : looksLikeFormula text.toList = true)
    (hf : convertExpr (.ofLayout ledger 2) e 3 = .ok f) : convert text.toList ledger 2 = .ok f := by
  have hwhole : (Expr.negate (.number literalOne)).asNumber?.bind Decimal.whole? = some (-1) := whole?_minusOne
  have hlanding : (Surroundings.ofLayout ledger 2).landing 2 (saturate (-1)) = .on 3 := rfl
  have hconvert : convertExpr (.ofLayout ledger 2) (ahead e) 2 = .ok f := by
    rw [ahead, convertExpr, writtenOffset, hwhole]
    change convertShifted _ _ _ (saturate (-1)) = _
    rw [convertShifted, hlanding]
    exact hf
  rw [convert, Formula.isBlankFormula_of_parse h, hlooks, h]
  exact hconvert

theorem exists_plan (hf : convert text.toList ledger 2 = .ok f) : ∃ row,
    ExportPlan.ofSources ledger 3 [leading text] = .ok ⟨3, [row]⟩ ∧ row.cells[2]? = some (.formula f) := by
  have hplace : ledger.get? (leading text).calculation.reference = some ⟨"Main", 2⟩ := by
    change ledger.get? (.calculation 9) = _
    decide
  obtain ⟨row, hplan, -, hcell⟩ := exists_plan_of_formulaAt hplace rfl (x := 0) rfl hf
  exact ⟨row, hplan, hcell⟩

end

theorem convert_aheadReference : convert "SHIFT(R4, -1)".toList ledger 2 = .ok (.cell ⟨"Inputs", 10, 8⟩) := by
  refine convert_ahead parse_aheadReference (by with_unfolding_all rfl) ?_
  rw [convertExpr, Surroundings.cell, row_eq_ok_iff.mpr get?_ledger, Except.map, column_ofLayout (by decide)]
  rfl

theorem convert_aheadOne : convert "SHIFT(1, -1)".toList ledger 2 = .ok (.number literalOne) := by
  refine convert_ahead parse_aheadOne (by with_unfolding_all rfl) ?_
  rw [convertExpr]
  exact if_pos (by decide)

theorem supports_aheadReference : quarter.Supports (.reference (.calculation 4)) :=
  ⟨List.forall_mem_singleton.mpr (Context.reads_iff.mpr ⟨[1, 2, 4], rfl⟩), by simp [Expr.offsets]⟩

theorem supports_one : quarter.Supports (.number literalOne) :=
  ⟨by simp [Expr.references], by simp [Expr.offsets]⟩

/-- A reference one month after the last. -/
theorem lead_past_end_reference : ∃ row,
    let cs := "SHIFT(R4, -1)".toList
    let e : Expr := .reference (.calculation 4)
    let f : CellFormula := .cell ⟨"Inputs", 10, 8⟩
    ExportPlan.ofSources ledger quarter.periods [leading "SHIFT(R4, -1)"] = .ok ⟨3, [row]⟩ ∧ Leads cs e 1 ∧
      ShowsToEnd quarterEnd quarter ledger cs ∧ ledger.Built ∧ (evaluateText quarter cs).error = none ∧
      row.cells[2]? = some (.formula f) ∧ quarter.periods ≤ 2 + 1 ∧
      (evaluateText quarter cs).values[2]? = some 0 ∧
      (quarterEnd.cellValue? row.place.sheet (ledger.firstColumn + 2) (f.content row.place.sheet) = some 0 ↔
        (numberAt quarter e (2 + 1)).getD 0 = 0) ∧
      (e.Vanishing → quarterEnd.cellValue? row.place.sheet (ledger.firstColumn + 2) (f.content row.place.sheet) = some 0) := by
  obtain ⟨row, hplan, hcell⟩ := exists_plan convert_aheadReference
  have hlead := leads_ahead parse_aheadReference
  have hshows := showsToEnd_ahead parse_aheadReference (by simp [Expr.numbers]) (by simp [Expr.references])
  have herror := error_ahead parse_aheadReference supports_aheadReference
  exact ⟨row, hplan, hlead, hshows, built_ledger, herror, hcell, by decide,
    lead_past_end (i := 0) hplan rfl rfl rfl hlead hshows built_ledger herror hcell (by decide)⟩

/-- A number one month after the last: the evaluator has zero there, and the cell does not. -/
theorem not_zero_past_end : ∃ row,
    let cs := "SHIFT(1, -1)".toList
    let f : CellFormula := .number literalOne
    ExportPlan.ofSources ledger quarter.periods [leading "SHIFT(1, -1)"] = .ok ⟨3, [row]⟩ ∧
      Leads cs (.number literalOne) 1 ∧ ShowsToEnd quarterEnd quarter ledger cs ∧ ledger.Built ∧
      (evaluateText quarter cs).error = none ∧ row.cells[2]? = some (.formula f) ∧ quarter.periods ≤ 2 + 1 ∧
      (evaluateText quarter cs).values[2]? = some 0 ∧
      quarterEnd.cellValue? row.place.sheet (ledger.firstColumn + 2) (f.content row.place.sheet) ≠ some 0 := by
  obtain ⟨row, hplan, hcell⟩ := exists_plan convert_aheadOne
  have hshows := showsToEnd_ahead parse_aheadOne (by simp [Expr.numbers]) (by simp [Expr.references])
  have herror := error_ahead parse_aheadOne supports_one
  obtain ⟨hsupports, -⟩ := values_of_error_eq_none (Formula.isBlankFormula_of_parse parse_aheadOne) parse_aheadOne herror
  have hs := hshows.shows.carries parse_aheadOne hsupports
  refine ⟨row, hplan, leads_ahead parse_aheadOne, hshows, built_ledger, herror, hcell, by decide,
    values_lead hs parse_aheadOne whole?_minusOne herror (by decide) (by decide), ?_⟩
  rw [cellValue?_lead (hshows.ends built_ledger) hs parse_aheadOne whole?_minusOne convert_aheadOne]
  change some (Arithmetic.literal literalOne : ℚ) ≠ some 0
  rw [agrees_one.one (by decide +kernel)]
  exact fun h => one_ne_zero (Option.some.inj h)

end Sheet

end MonthlyModel
