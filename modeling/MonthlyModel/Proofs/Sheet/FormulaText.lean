import Mathlib
import MonthlyModel.Proofs.Sheet.Reading
import MonthlyModel.Sheet.Export

/-! The terms that the texts of cell formulas stand for.

Every formula whose columns exist and whose numbers are finite is written in such a way that a
spreadsheet reads its term: brackets stand wherever an operator binds less tightly than its place
asks for. -/

namespace MonthlyModel.Sheet

open MonthlyModel.Formula (Operator Function)

variable {home : String} {k : Nat} {x y : List Char} {t u : Term}

/-! ### Numbers -/

/-- The term of a numeral, which may have a minus sign. -/
def signed : List Char → Term
  | '-' :: cs => .negate (.numeral cs)
  | cs => .numeral cs

/-- A numeral, or one after a minus sign. -/
def SignedNumeral (x : List Char) : Prop :=
  Numeral x ∨ ∃ y, x = '-' :: y ∧ Numeral y

theorem Numeral.signed_eq (h : Numeral x) : signed x = .numeral x := by
  obtain ⟨c, cs, rfl, hc⟩ := h.head
  unfold signed
  split
  · next h' => exact absurd (List.cons.inj h').1 (ne_of_isDigit hc rfl)
  · rfl

theorem SignedNumeral.standsFor (h : SignedNumeral x) : StandsFor home 5 x (signed x) := by
  rcases h with h | ⟨y, rfl, h⟩
  · rw [h.signed_eq]
    exact h.standsFor
  · exact h.standsFor.negate

theorem signedNumeral_intDigits (n : Int) : SignedNumeral (Decimal.intDigits n) := by
  unfold Decimal.intDigits
  split
  · exact .inr ⟨_, rfl, numeral_digits _⟩
  · exact .inl (numeral_digits _)

theorem Numeral.append (hx : Numeral x) (hy : ∀ c ∈ y, isNumeralChar c = true) : Numeral (x ++ y) := by
  obtain ⟨c, cs, rfl, hc⟩ := hx.head
  exact ⟨⟨c, cs ++ y, rfl, hc⟩, List.forall_mem_append.mpr ⟨hx.chars, hy⟩⟩

theorem Numeral.take (hx : Numeral x) (hk : 0 < k) : Numeral (x.take k) := by
  obtain ⟨c, cs, rfl, hc⟩ := hx.head
  obtain ⟨k, rfl⟩ := Nat.exists_eq_add_one.mpr hk
  exact ⟨⟨c, cs.take k, rfl, hc⟩, fun d hd => hx.chars d (List.mem_of_mem_take hd)⟩

theorem numeral_singleton {c : Char} (hc : Decimal.isDigit c = true) : Numeral [c] :=
  ⟨⟨c, [], rfl, hc⟩, List.forall_mem_singleton.mpr (by rw [isNumeralChar, hc, Bool.true_or])⟩

theorem numeral_text (d : Decimal.Scaled) : Numeral d.text := by
  have hdigits := numeral_digits d.digits
  have hzeros : ∀ n, ∀ c ∈ List.replicate n '0', isNumeralChar c = true := by
    intro n c hc
    rw [List.eq_of_mem_replicate hc]
    rfl
  unfold Decimal.Scaled.text
  dsimp only
  split
  · exact hdigits.append (hzeros _)
  · split
    · -- Digits stay in front of the point, so the text starts with the first of all digits.
      refine (hdigits.take (by omega)).append (List.forall_mem_cons.mpr ⟨rfl, fun c hc => ?_⟩)
      exact hdigits.chars c (List.mem_of_mem_drop hc)
    · refine (numeral_singleton (c := '0') rfl).append (y := '.' :: List.replicate _ '0' ++ _) ?_
      exact List.forall_mem_append.mpr ⟨List.forall_mem_cons.mpr ⟨rfl, hzeros _⟩, hdigits.chars⟩

theorem isNaN_eq_false {x : Float} (hx : x.isFinite = true) : x.isNaN = false := by
  unfold Float.isFinite Float.Model.isFinite at hx
  unfold Float.isNaN Float.Model.isNaN
  cases h : x.toModel.unpack <;> simp_all [Float.Model.UnpackedFloat.isFinite, Float.Model.UnpackedFloat.isNaN]

theorem isInf_eq_false {x : Float} (hx : x.isFinite = true) : x.isInf = false := by
  unfold Float.isFinite Float.Model.isFinite at hx
  unfold Float.isInf Float.Model.isInf
  cases h : x.toModel.unpack <;> simp_all [Float.Model.UnpackedFloat.isFinite, Float.Model.UnpackedFloat.isInf]

theorem numeral_magnitude (x : Float) :
    Numeral (if (Decimal.Binary.ofFloat x).m = 0 then ['0'] else (Decimal.Binary.ofFloat x).shortest.text) := by
  split
  · exact numeral_singleton rfl
  · exact numeral_text _

theorem toList_text {x : Float} (hx : x.isFinite = true) : ∃ y, Numeral y ∧
    (Decimal.text x).toList = if Decimal.isNegative x then '-' :: y else y := by
  refine ⟨_, numeral_magnitude x, ?_⟩
  unfold Decimal.text
  rw [isNaN_eq_false hx, isInf_eq_false hx]
  dsimp only
  rw [if_neg Bool.false_ne_true, if_neg Bool.false_ne_true, String.toList_ofList]

theorem signedNumeral_numberText {x : Float} (hx : x.isFinite = true) : SignedNumeral (numberText x) := by
  unfold numberText
  split
  · exact .inl (numeral_singleton rfl)
  · obtain ⟨y, hy, htext⟩ := toList_text hx
    rw [htext]
    split
    · exact .inr ⟨y, rfl, hy⟩
    · exact .inl hy

theorem numeral_numberText {x : Float} (hx : x.isFinite = true) (hsign : Decimal.isNegative x = false) :
    Numeral (numberText x) := by
  unfold numberText
  split
  · exact numeral_singleton rfl
  · obtain ⟨y, hy, htext⟩ := toList_text hx
    rwa [htext, hsign]

/-! ### Brackets -/

theorem StandsFor.bracketed {strength least : Nat} (h : StandsFor home (min strength 5) x t) (hl : least ≤ 5)
    (h1 : 1 ≤ strength) : StandsFor home least (CellFormula.bracketed least strength x) t := by
  unfold CellFormula.bracketed
  split
  · exact (h.of_le (by omega) (by omega)).brackets.of_le hl (Nat.le_refl _)
  · exact h.of_le (by omega) (by omega)

/-! ### Terms -/

def RowRange.term (r : RowRange) : Term :=
  .area ⟨r.sheet, r.first, r.row, r.last, r.row⟩

def operationTerm (o : Operator) (l r : Term) : Term :=
  if o = .divide then .call "IFERROR".toList [.binary o l r, .numeral ['0']]
  else if o.isComparison then .binary .multiply (.binary o l r) (.numeral ['1'])
  else .binary o l r

namespace CellFormula

/-- The term that the text of a formula stands for. -/
def term : CellFormula → Term
  | .number x => signed (numberText x)
  | .cell c => .area ⟨c.sheet, c.column, c.row, c.column, c.row⟩
  | .negate e => .negate e.term
  | .binary o l r => operationTerm o l.term r.term
  | .call f es => .call f.name.toList (terms es)
  | .sum r => .call "SUM".toList [r.term]
  | .product r => .call "PRODUCT".toList [r.term]
  | .countNonzero r => .call "COUNTIF".toList [r.term, .text "<>0".toList]
  | .sumOfProducts r s => .call "SUMPRODUCT".toList [r.term, s.term]
  | .columnsPast n => .binary .subtract (.call "COLUMN".toList []) (signed (Decimal.intDigits n))
where
  /-- The terms of several formulas. -/
  terms : List CellFormula → List Term
    | [] => []
    | e :: es => e.term :: terms es

/-- Columns exist, numbers are finite, and the functions are those that spreadsheets have under the
    same name. -/
inductive Regular : CellFormula → Prop where
  | number {x : Float} (hx : x.isFinite = true) : Regular (.number x)
  | cell {c : Cell} (hc : 0 < c.column) : Regular (.cell c)
  | negate {e : CellFormula} (he : Regular e) : Regular (.negate e)
  | binary (o : Operator) {l r : CellFormula} (hl : Regular l) (hr : Regular r) : Regular (.binary o l r)
  | call {f : Function} {es : List CellFormula} (hf : f.isTemporal = false) (hes : ∀ e ∈ es, Regular e) :
    Regular (.call f es)
  | sum {r : RowRange} (hr : r.Exists) : Regular (.sum r)
  | product {r : RowRange} (hr : r.Exists) : Regular (.product r)
  | countNonzero {r : RowRange} (hr : r.Exists) : Regular (.countNonzero r)
  | sumOfProducts {r s : RowRange} (hr : r.Exists) (hs : s.Exists) : Regular (.sumOfProducts r s)
  | columnsPast (n : Int) : Regular (.columnsPast n)

theorem one_le_strength (f : CellFormula) : 1 ≤ f.strength := by
  unfold strength
  split
  · split <;> decide
  · decide
  · split <;> decide
  · decide

theorem forall₂_texts {es : List CellFormula} (h : ∀ e ∈ es, StandsFor home (min e.strength 5) (e.text home) e.term) :
    List.Forall₂ (StandsFor home 1) (text.texts home es) (term.terms es) := by
  induction es with
  | nil => exact .nil
  | cons e es ih =>
    obtain ⟨he, hes⟩ := List.forall_mem_cons.mp h
    have := e.one_le_strength
    exact .cons (he.of_le (by omega) (by omega)) (ih hes)

end CellFormula

/-! ### Calls -/

/-- A call of one argument, where the name and the bracket after it are written in one piece. -/
theorem StandsFor.call_singleton {f opening : List Char} (hf : Name f) (ho : opening = f ++ ['('])
    (h : StandsFor home 1 x t) : StandsFor home 5 (opening ++ x ++ [')']) (.call f [t]) := by
  have hcall := StandsFor.call hf (.cons h .nil)
  rw [List.intercalate_singleton] at hcall
  rwa [ho, List.append_assoc f, List.singleton_append]

theorem StandsFor.call_pair {f opening ending : List Char} (hf : Name f) (ho : opening = f ++ ['('])
    (he : ending = ',' :: y ++ [')']) (hx : StandsFor home 1 x t) (hy : StandsFor home 1 y u) :
    StandsFor home 5 (opening ++ x ++ ending) (.call f [t, u]) := by
  have hcall := StandsFor.call hf (.cons hx (.cons hy .nil))
  have htext : opening ++ x ++ ending = f ++ '(' :: [','].intercalate [x, y] ++ [')'] := by
    simp [ho, he, List.intercalate_cons_cons]
  rwa [htext]

/-! ### Operations -/

theorem operandStrengths_fit (o : Operator) :
    o.strength ≤ (CellFormula.operandStrengths o).1 ∧ o.strength + 1 ≤ (CellFormula.operandStrengths o).2 ∧
      (CellFormula.operandStrengths o).1 ≤ 5 ∧ (CellFormula.operandStrengths o).2 ≤ 5 := by
  cases o <;> decide

theorem StandsFor.caught (h : StandsFor home 1 x t) :
    StandsFor home 5 ("IFERROR(".toList ++ x ++ ",0)".toList) (.call "IFERROR".toList [t, .numeral ['0']]) := by
  have hzero : StandsFor home 1 ['0'] (.numeral ['0']) :=
    (numeral_singleton rfl).standsFor.of_le (by decide) (Nat.le_refl _)
  exact .call_pair (name_of_all rfl) rfl rfl h hzero

theorem StandsFor.counted (h : StandsFor home 1 x t) :
    StandsFor home 3 ('(' :: x ++ ")*1".toList) (.binary .multiply t (.numeral ['1'])) := by
  have hone : StandsFor home 4 ['1'] (.numeral ['1']) :=
    (numeral_singleton rfl).standsFor.of_le (by decide) (Nat.le_refl _)
  have htext : '(' :: x ++ ")*1".toList = ('(' :: x ++ [')']) ++ cellSymbol .multiply ++ ['1'] := by
    simp [cellSymbol, Operator.symbol]
  rw [htext]
  exact StandsFor.binary .multiply (h.brackets.of_le (by decide) (Nat.le_refl _)) hone

theorem strength_binary (o : Operator) (l r : CellFormula) : (CellFormula.binary o l r).strength =
    if o = .divide then 10 else if o.isComparison then 3 else o.strength := by
  cases o <;> rfl

theorem standsFor_operationText {o : Operator} (hl : StandsFor home (CellFormula.operandStrengths o).1 x t)
    (hr : StandsFor home (CellFormula.operandStrengths o).2 y u) (l r : CellFormula) :
    StandsFor home (min (CellFormula.strength (.binary o l r)) 5) (CellFormula.operationText o x y)
      (operationTerm o t u) := by
  obtain ⟨hfl, hfr, hl5, hr5⟩ := operandStrengths_fit o
  have hplain := StandsFor.binary o (hl.of_le hfl hl5) (hr.of_le hfr hr5)
  have h1 : StandsFor home 1 (x ++ cellSymbol o ++ y) (.binary o t u) :=
    hplain.of_le (by cases o <;> decide) (by cases o <;> decide)
  rw [strength_binary]
  unfold CellFormula.operationText operationTerm
  dsimp only
  split
  · exact h1.caught
  · split
    · exact h1.counted
    · exact hplain.of_le (Nat.min_le_left _ _) (by cases o <;> decide)

/-! ### Formulas -/

theorem name_of_not_isTemporal {f : Function} (hf : f.isTemporal = false) : Name f.name.toList := by
  cases f with
  | abs | max | min => exact name_of_all rfl
  | _ => cases hf

theorem RowRange.Exists.argument {r : RowRange} (hr : r.Exists) : StandsFor home 1 (r.text home) r.term :=
  hr.standsFor.of_le (by decide) (Nat.le_refl _)

theorem standsFor_columnsPast (n : Int) : StandsFor home 5 ("(COLUMN()-".toList ++ Decimal.intDigits n ++ [')'])
    (CellFormula.columnsPast n).term := by
  have hcolumn : StandsFor home 2 "COLUMN()".toList (.call "COLUMN".toList []) :=
    (StandsFor.call (x := "COLUMN".toList) (name_of_all rfl) .nil).of_le (by decide) (Nat.le_refl _)
  have hpast : StandsFor home 3 (Decimal.intDigits n) (signed (Decimal.intDigits n)) :=
    (signedNumeral_intDigits n).standsFor.of_le (by decide) (Nat.le_refl _)
  exact ((StandsFor.binary .subtract hcolumn hpast).of_le (by decide) (by decide)).brackets

/-- The text of a formula stands for its term. -/
theorem CellFormula.Regular.standsFor {f : CellFormula} (h : f.Regular) :
    StandsFor home (min f.strength 5) (f.text home) f.term := by
  induction h with
  | number hx => exact (signedNumeral_numberText hx).standsFor.of_le (Nat.min_le_right _ _) (Nat.le_refl _)
  | cell hc => exact Cell.standsFor hc
  | @negate e he ih => exact (ih.bracketed (Nat.le_refl _) e.one_le_strength).negate
  | @binary o l r hl hr ihl ihr =>
    -- Operands are bracketed by what they bind with, so each of them fits its side of the operator.
    obtain ⟨-, -, hl5, hr5⟩ := operandStrengths_fit o
    exact standsFor_operationText (ihl.bracketed hl5 l.one_le_strength) (ihr.bracketed hr5 r.one_le_strength) l r
  | call hf hes ih => exact StandsFor.call (name_of_not_isTemporal hf) (forall₂_texts ih)
  | sum hr => exact .call_singleton (name_of_all rfl) rfl hr.argument
  | product hr => exact .call_singleton (name_of_all rfl) rfl hr.argument
  | countNonzero hr =>
    have hcriterion : StandsFor home 1 ('\"' :: "<>0".toList ++ ['\"']) (.text "<>0".toList) :=
      (standsFor_text (by decide)).of_le (by decide) (Nat.le_refl _)
    exact .call_pair (name_of_all rfl) rfl rfl hr.argument hcriterion
  | @sumOfProducts r s hr hs =>
    change StandsFor home 5 ("SUMPRODUCT(".toList ++ r.text home ++ ',' :: s.text home ++ [')']) _
    rw [List.append_assoc]
    exact .call_pair (name_of_all rfl) rfl rfl hr.argument hs.argument
  | columnsPast n => exact standsFor_columnsPast n

/-- A spreadsheet reads the term of a formula in the content of its cell. -/
theorem CellFormula.Regular.readFormula {f : CellFormula} (h : f.Regular) :
    readFormula home (f.content home) = some f.term := by
  have := f.one_le_strength
  exact (h.standsFor.of_le (by omega) (by omega)).readFormula

end MonthlyModel.Sheet
