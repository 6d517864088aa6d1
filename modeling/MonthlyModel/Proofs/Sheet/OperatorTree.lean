import MonthlyModel.Proofs.Formula.Literals
import MonthlyModel.Proofs.Sheet.Reach

/-! Operators that are read back as they were meant.

The text of a cell has brackets only where the operators of a spreadsheet ask for them. For formulas that
look at one month only, what is read in the text has the operators of the expression in the places where
the expression has them. -/

namespace MonthlyModel.Sheet

open Formula (Expr Function Operator parse)

variable {l : Layout} {e : Expr} {f : CellFormula} {p origin : Nat}

/-- The cell of a reference in the column of a month. -/
def Layout.cellTerm? (l : Layout) (position : Nat) (r : Reference) : Option Term :=
  (l.get? r).map fun row => .area ⟨row.sheet, l.column position, row.row, l.column position, row.row⟩

/-- The operators of an expression over its literals and the cells of its references. -/
def operatorTree? (cell? : Reference → Option Term) : Expr → Option Term
  | .number x => some (.numeral (numberText x))
  | .reference r => cell? r
  | .negate e => do return .negate (← operatorTree? cell? e)
  | .binary o l r => do return operationTerm o (← operatorTree? cell? l) (← operatorTree? cell? r)
  | .call f es => do return .call f.name.toList (← trees? cell? es)
where
  /-- The operators of several expressions. -/
  trees? (cell? : Reference → Option Term) : List Expr → Option (List Term)
    | [] => some []
    | e :: es => do return (← operatorTree? cell? e) :: (← trees? cell? es)

/-- An expression calls functions of one month only, and its literals have no signs. -/
structure Immediate (e : Expr) : Prop where
  functions : ∀ g ∈ e.functions, g.isTemporal = false
  literals : ∀ x ∈ e.literals, Decimal.isNegative x = false

namespace Immediate

theorem of_negate (h : Immediate (.negate e)) : Immediate e :=
  ⟨h.functions, h.literals⟩

theorem of_binary {o : Operator} {a b : Expr} (h : Immediate (.binary o a b)) : Immediate a ∧ Immediate b := by
  obtain ⟨hfa, hfb⟩ := List.forall_mem_append.mp h.functions
  obtain ⟨hla, hlb⟩ := List.forall_mem_append.mp h.literals
  exact ⟨⟨hfa, hla⟩, ⟨hfb, hlb⟩⟩

theorem of_call {g : Function} {es : List Expr} (h : Immediate (.call g es)) : g.isTemporal = false ∧ ∀ e ∈ es, Immediate e := by
  obtain ⟨hfunctions, hliterals⟩ := h
  rw [Expr.functions_call] at hfunctions
  rw [Expr.literals_call] at hliterals
  obtain ⟨hg, hes⟩ := List.forall_mem_cons.mp hfunctions
  refine ⟨hg, fun e he => ⟨fun f hf => hes f ?_, fun x hx => hliterals x ?_⟩⟩
  · exact List.mem_flatMap.mpr ⟨e, he, hf⟩
  · exact List.mem_flatMap.mpr ⟨e, he, hx⟩

end Immediate

/-! ### The term of a converted expression -/

theorem trees?_eq {cell? : Reference → Option Term} {es : List Expr} {fs : List CellFormula}
    (h : List.Forall₂ (fun e f => operatorTree? cell? e = some f.term) es fs) :
    operatorTree?.trees? cell? es = some (CellFormula.term.terms fs) := by
  induction h with
  | nil => rfl
  | cons h _ ih => simp [operatorTree?.trees?, CellFormula.term.terms, h, ih]

theorem operatorTree?_of_call {cell? : Reference → Option Term} {g : Function} {es : List Expr} {s : Surroundings}
    (ih : ∀ e ∈ es, ∀ {f}, convertExpr s e p = .ok f → operatorTree? cell? e = some f.term)
    (h : (do return CellFormula.call g (← convertAll s es p)) = .ok f) : operatorTree? cell? (.call g es) = some f.term := by
  obtain ⟨fs, hfs, h⟩ := bind_eq_ok_iff.mp h
  cases h
  obtain ⟨hlength, hzip⟩ := List.forall₂_iff_zip.mp (forall₂_of_convertAll hfs)
  have htrees := trees?_eq (List.forall₂_iff_zip.mpr ⟨hlength, fun hmem => ih _ (List.of_mem_zip hmem).1 (hzip hmem)⟩)
  simp [operatorTree?, CellFormula.term, htrees]

/-- The formula of an expression without temporal functions keeps its operators. -/
theorem operatorTree?_of_convertExpr (he : Immediate e) (h : convertExpr (.ofLayout l origin) e p = .ok f) :
    operatorTree? (l.cellTerm? p) e = some f.term := by
  induction e using Expr.induct generalizing f with
  | number x =>
    rw [convertExpr] at h
    obtain ⟨hx, rfl⟩ := numberFormula_eq_ok_iff.mp h
    have hnumeral := numeral_numberText hx (he.literals x (List.mem_singleton_self x))
    rw [operatorTree?, CellFormula.term, hnumeral.signed_eq]
  | reference r =>
    rw [convertExpr] at h
    obtain ⟨cell, hcell, rfl⟩ := map_eq_ok_iff.mp h
    obtain ⟨row, hrow, rfl⟩ := map_eq_ok_iff.mp hcell
    have hget : l.get? r = some row := row_eq_ok_iff.mp hrow
    rw [operatorTree?, Layout.cellTerm?, hget]
    rfl
  | negate e ih =>
    rw [convertExpr] at h
    obtain ⟨g, hg, h⟩ := bind_eq_ok_iff.mp h
    cases h
    simp [operatorTree?, CellFormula.term, ih he.of_negate hg]
  | binary o a b iha ihb =>
    rw [convertExpr] at h
    obtain ⟨f, ha, h⟩ := bind_eq_ok_iff.mp h
    obtain ⟨g, hb, h⟩ := bind_eq_ok_iff.mp h
    cases h
    simp [operatorTree?, CellFormula.term, iha he.of_binary.1 ha, ihb he.of_binary.2 hb]
  | call g es ih =>
    obtain ⟨hg, hes⟩ := he.of_call
    cases g with
    | abs | max | min =>
      rw [convertExpr] at h
      exact operatorTree?_of_call (fun e hmem => ih e hmem (hes e hmem)) h
    | _ => cases hg

/-- What a spreadsheet reads in the cell of a formula that looks at one month only has the operators of the
    expression where the expression has them, if the column of the month can be counted. -/
theorem readFormula_of_operators {cs : List Char} (hl : l.Built) (he : parse cs = .ok e)
    (hfunctions : ∀ g ∈ e.functions, g.isTemporal = false) (hf : convertExpr (.ofLayout l origin) e p = .ok f)
    (hp : l.firstColumn + p < UInt32.size) (home : String) :
    ∃ t, operatorTree? (l.cellTerm? p) e = some t ∧ readFormula home (f.content home) = some t := by
  have himmediate : Immediate e := ⟨hfunctions, Formula.isNegative_of_parse he⟩
  obtain ⟨hregular, -⟩ := (converts_of_convertExpr (Formula.applied_of_parse he) hf).onSheet_iff
    hl.firstColumn_pos hp
  exact ⟨f.term, operatorTree?_of_convertExpr himmediate hf, hregular.readFormula⟩

/-! ### A formula with brackets -/

/-- A difference from a difference, to a negative power, over an absolute value, in a comparison. -/
def nested : Expr :=
  let r : Expr := .reference (.calculation 4)
  .binary .greater
    (.binary .divide (.binary .power (.binary .subtract r (.binary .subtract r r)) (.negate r)) (.call .abs [r])) r

theorem parse_nested : parse "(R4-(R4-R4))^-R4/ABS(R4)>R4".toList = .ok nested := by
  cbv

def nestedFormula : CellFormula :=
  let g : CellFormula := .cell ⟨"Inputs", 10, 7⟩
  .binary .greater
    (.binary .divide (.binary .power (.binary .subtract g (.binary .subtract g g)) (.negate g)) (.call .abs [g])) g

theorem convert_nested : convertExpr (.ofLayout inputs 2) nested 2 = .ok nestedFormula := by
  have hcell : (Surroundings.ofLayout inputs 2).cell (.calculation 4) 2 = .ok ⟨"Inputs", 10, 7⟩ := cell_inputs (by decide) 2
  simp [nested, convertExpr, convertAll, hcell]
  rfl

theorem readFormula_of_operators_nested : ∃ t,
    parse "(R4-(R4-R4))^-R4/ABS(R4)>R4".toList = .ok nested ∧ inputs.Built ∧
      (∀ g ∈ nested.functions, g.isTemporal = false) ∧ convertExpr (.ofLayout inputs 2) nested 2 = .ok nestedFormula ∧
      inputs.firstColumn + 2 < UInt32.size ∧
      nestedFormula.content "Inputs" = "=(IFERROR((G$10-(G$10-G$10))^-G$10/ABS(G$10),0)>G$10)*1" ∧
      operatorTree? (inputs.cellTerm? 2) nested = some t ∧ readFormula "Inputs" (nestedFormula.content "Inputs") = some t := by
  have hfunctions : ∀ g ∈ nested.functions, g.isTemporal = false := by decide
  obtain ⟨t, htree, hread⟩ := readFormula_of_operators built_inputs parse_nested hfunctions convert_nested (by decide)
    "Inputs"
  exact ⟨t, parse_nested, built_inputs, hfunctions, convert_nested, by decide, by with_unfolding_all rfl, htree, hread⟩

end MonthlyModel.Sheet
