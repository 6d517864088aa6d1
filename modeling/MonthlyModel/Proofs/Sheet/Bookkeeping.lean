import MonthlyModel.Proofs.Sheet.Lead

/-! The books of an export.

An export fails with the first calculation that has no place or not a value for each month. Otherwise each
calculation has its row, with a formula where there is one and its value elsewhere, and the statistics
count what stands in the rows. -/

namespace MonthlyModel.Sheet

variable {l : Layout} {n : Nat} {source : ExportSource} {row : ExportRow} {p : Nat}

/-! ### Cells -/

theorem formulaAt_eq_ok_iff {f : CellFormula} :
    source.formulaAt l p = .ok f ↔ source.failed = false ∧ convert source.calculation.formula.toList l p = .ok f := by
  unfold ExportSource.formulaAt
  cases source.failed <;> simp

theorem ofAttempt_eq_formula_iff {attempt : Except ExportError CellFormula} {x : Float} {f : CellFormula} :
    ExportCell.ofAttempt (attempt, x) = .formula f ↔ attempt = .ok f := by
  cases attempt <;> simp [ExportCell.ofAttempt]

theorem ofAttempt_eq_value_iff {attempt : Except ExportError CellFormula} {x y : Float} :
    ExportCell.ofAttempt (attempt, x) = .value y ↔ x = y ∧ ∀ f, attempt ≠ .ok f := by
  cases attempt <;> simp [ExportCell.ofAttempt]

theorem isSome_reason? (attempt : Except ExportError CellFormula) (x : Float) :
    (reason? (attempt, x)).isSome = !(ExportCell.ofAttempt (attempt, x)).isFormula := by
  cases attempt <;> rfl

/-! ### Calculations that cannot be exported -/

/-- A calculation with a place and a value for each month. -/
structure ExportSource.Fits (s : ExportSource) (l : Layout) (n : Nat) : Prop where
  placed : l.get? s.calculation.reference ≠ none
  complete : s.values.length = n

/-- Why a calculation has no row. -/
inductive ExportSource.Misfits (l : Layout) (n : Nat) (s : ExportSource) : ExportError → Prop where
  | unplaced (h : l.get? s.calculation.reference = none) : Misfits l n s (.noRow s.calculation.reference)
  | incomplete (h : l.get? s.calculation.reference ≠ none) (hlength : s.values.length ≠ n) :
    Misfits l n s (.valueCount s.calculation.reference n s.values.length)

theorem ExportSource.Misfits.not_fits {error : ExportError} (h : source.Misfits l n error) : ¬ source.Fits l n := by
  rintro ⟨hplaced, hcomplete⟩
  cases h with
  | unplaced h => exact hplaced h
  | incomplete _ hlength => exact hlength hcomplete

theorem ofSource_eq_error_iff {error : ExportError} :
    ExportRow.ofSource l n source = .error error ↔ source.Misfits l n error := by
  constructor
  · intro h
    unfold ExportRow.ofSource at h
    dsimp only at h
    split at h
    · next hplace =>
      cases h
      exact .unplaced hplace
    · next place hplace =>
      split at h
      · next hlength =>
        cases h
        exact .incomplete (by simp [hplace]) hlength
      · cases h
  · rintro (hplace | ⟨hplace, hlength⟩)
    · simp [ExportRow.ofSource, hplace]
    · obtain ⟨place, hplace⟩ := Option.ne_none_iff_exists'.mp hplace
      simp [ExportRow.ofSource, hplace, hlength]

theorem exists_ofSource_iff : (∃ row, ExportRow.ofSource l n source = .ok row) ↔ source.Fits l n := by
  constructor
  · rintro ⟨row, h⟩
    obtain ⟨hplace, hlength, -⟩ := ofSource_eq_ok h
    exact ⟨by simp [hplace], hlength⟩
  · intro h
    cases hrow : ExportRow.ofSource l n source with
    | ok row => exact ⟨row, rfl⟩
    | error error => exact absurd h (ofSource_eq_error_iff.mp hrow).not_fits

theorem ofSources_eq_error_iff {sources : List ExportSource} {error : ExportError} :
    ExportPlan.ofSources l n sources = .error error ↔
      ∃ before s after, sources = before ++ s :: after ∧ (∀ t ∈ before, t.Fits l n) ∧ s.Misfits l n error := by
  have hplan (rows : List ExportRow) : ¬ (pure ⟨n, rows⟩ : Except ExportError ExportPlan) = .error error :=
    fun h => nomatch h
  simp only [ExportPlan.ofSources, bind_eq_error_iff, hplan, and_false, exists_false, or_false, mapM_eq_error_iff,
    exists_ofSource_iff, ofSource_eq_error_iff]

theorem fits_of_plan {sources : List ExportSource} {plan : ExportPlan} (h : ExportPlan.ofSources l n sources = .ok plan) :
    ∀ s ∈ sources, s.Fits l n := by
  intro s hs
  obtain ⟨i, hi⟩ := List.getElem?_of_mem hs
  obtain ⟨row, -, hrow⟩ := exists_row_of_plan h hi
  exact exists_ofSource_iff.mp ⟨row, hrow⟩

/-! ### Rows -/

/-- The row of a calculation. A cell has a formula if the calculation has no error and there is a formula in
    that month, and the value of the month otherwise. -/
structure Exported (l : Layout) (n : Nat) (s : ExportSource) (row : ExportRow) : Prop where
  id : row.id = s.calculation.id
  name : row.name = s.calculation.name
  place : l.get? s.calculation.reference = some row.place
  length : row.cells.length = n
  formula : ∀ p f, row.cells[p]? = some (.formula f) ↔
    p < n ∧ s.failed = false ∧ convert s.calculation.formula.toList l p = .ok f
  value : ∀ p x, row.cells[p]? = some (.value x) ↔
    s.values[p]? = some x ∧ ¬ (s.failed = false ∧ ∃ f, convert s.calculation.formula.toList l p = .ok f)
  degraded : row.degraded.isSome = row.cells.any (!·.isFormula)

theorem id_name_of_ofSource (h : ExportRow.ofSource l n source = .ok row) :
    row.id = source.calculation.id ∧ row.name = source.calculation.name := by
  unfold ExportRow.ofSource at h
  dsimp only at h
  split at h
  · cases h
  · split at h
    · cases h
    · cases h
      exact ⟨rfl, rfl⟩

theorem getElem?_cells (h : ExportRow.ofSource l n source = .ok row) (p : Nat) :
    row.cells[p]? = source.values[p]?.map fun x => .ofAttempt (source.formulaAt l p, x) := by
  obtain ⟨-, -, hcells, -⟩ := ofSource_eq_ok h
  simp [hcells, List.getElem?_zipIdx, Function.comp_def]

theorem isSome_degraded (h : ExportRow.ofSource l n source = .ok row) :
    row.degraded.isSome = row.cells.any (!·.isFormula) := by
  obtain ⟨-, -, hcells, hdegraded⟩ := ofSource_eq_ok h
  rw [hcells, hdegraded, List.isSome_findSome?, List.any_map]
  simp only [Function.comp_def, isSome_reason?]

theorem exported_of_ofSource (h : ExportRow.ofSource l n source = .ok row) : Exported l n source row := by
  obtain ⟨hid, hname⟩ := id_name_of_ofSource h
  obtain ⟨hplace, hlength, hcells, -⟩ := ofSource_eq_ok h
  refine ⟨hid, hname, hplace, by simp [hcells, hlength], fun p f => ?_, fun p x => ?_, isSome_degraded h⟩
  · rw [getElem?_cells h, Option.map_eq_some_iff, ← hlength]
    constructor
    · rintro ⟨x, hx, hf⟩
      exact ⟨(List.getElem?_eq_some_iff.mp hx).1, formulaAt_eq_ok_iff.mp (ofAttempt_eq_formula_iff.mp hf)⟩
    · rintro ⟨hp, hf⟩
      exact ⟨_, List.getElem?_eq_getElem hp, ofAttempt_eq_formula_iff.mpr (formulaAt_eq_ok_iff.mpr hf)⟩
  · rw [getElem?_cells h, Option.map_eq_some_iff]
    simp only [ofAttempt_eq_value_iff, ne_eq, formulaAt_eq_ok_iff]
    constructor
    · rintro ⟨x, hx, rfl, hf⟩
      exact ⟨hx, fun ⟨hfailed, f, hconvert⟩ => hf f ⟨hfailed, hconvert⟩⟩
    · rintro ⟨hx, hf⟩
      exact ⟨x, hx, rfl, fun f ⟨hfailed, hconvert⟩ => hf ⟨hfailed, f, hconvert⟩⟩

/-! ### Statistics -/

theorem countP_add_countP (cells : List ExportCell) :
    cells.countP (·.isFormula) + cells.countP (!·.isFormula) = cells.length := by
  rw [cells.length_eq_countP_add_countP (·.isFormula)]
  simp only [Bool.not_eq_true, Bool.decide_eq_false]

theorem count_eq (s : ExportStats) (row : ExportRow) : s.count row = {
    calculations := s.calculations + 1
    formulaCells := s.formulaCells + row.cells.countP (·.isFormula)
    valueCells := s.valueCells + row.cells.countP (!·.isFormula)
    degradedRows := s.degradedRows + row.degraded.isSome.toNat } := by
  simp only [ExportStats.count, ← countP_add_countP row.cells, Nat.add_sub_cancel_left]

theorem foldl_count (rows : List ExportRow) (s : ExportStats) : rows.foldl .count s = {
    calculations := s.calculations + rows.length
    formulaCells := s.formulaCells + (rows.flatMap (·.cells)).countP (·.isFormula)
    valueCells := s.valueCells + (rows.flatMap (·.cells)).countP (!·.isFormula)
    degradedRows := s.degradedRows + rows.countP (·.degraded.isSome) } := by
  induction rows generalizing s with
  | nil => rfl
  | cons row rows ih =>
    rw [List.foldl_cons, ih, count_eq]
    simp only [List.length_cons, List.flatMap_cons, List.countP_append, List.countP_cons, ExportStats.mk.injEq]
    refine ⟨by omega, by omega, by omega, ?_⟩
    cases row.degraded.isSome <;> simp [Nat.add_assoc, Nat.add_comm]

theorem stats_eq (plan : ExportPlan) : plan.stats = {
    calculations := plan.rows.length
    formulaCells := (plan.rows.flatMap (·.cells)).countP (·.isFormula)
    valueCells := (plan.rows.flatMap (·.cells)).countP (!·.isFormula)
    degradedRows := plan.rows.countP (·.degraded.isSome) } := by
  rw [ExportPlan.stats, foldl_count]
  simp only [ExportStats.none, Nat.zero_add]

theorem length_cells {sources : List ExportSource} {rows : List ExportRow} (h : List.Forall₂ (Exported l n) sources rows) :
    (rows.flatMap (·.cells)).length = rows.length * n := by
  induction h with
  | nil => simp
  | cons hrow _ ih => rw [List.flatMap_cons, List.length_append, hrow.length, ih, List.length_cons, Nat.succ_mul, Nat.add_comm]

theorem degradedRows_eq {sources : List ExportSource} {rows : List ExportRow}
    (h : List.Forall₂ (Exported l n) sources rows) :
    rows.countP (·.degraded.isSome) = rows.countP fun row => row.cells.any (!·.isFormula) := by
  induction h with
  | nil => rfl
  | cons hrow _ ih => rw [List.countP_cons, List.countP_cons, hrow.degraded, ih]

/-- The books of an export are exact. It fails exactly if a calculation has no place or not a value for each
    month, and reports the first such calculation. Otherwise it has the row of each calculation in order, the
    statistics count the cells and the degraded rows, and there is a cell for each calculation and month. -/
theorem exact_books (l : Layout) (n : Nat) (sources : List ExportSource) :
    ((∃ error, ExportPlan.ofSources l n sources = .error error) ↔ ∃ s ∈ sources, ¬ s.Fits l n) ∧
      (∀ error, ExportPlan.ofSources l n sources = .error error ↔
        ∃ before s after, sources = before ++ s :: after ∧ (∀ t ∈ before, t.Fits l n) ∧ s.Misfits l n error) ∧
      ∀ plan, ExportPlan.ofSources l n sources = .ok plan →
        plan.periods = n ∧ List.Forall₂ (Exported l n) sources plan.rows ∧
          plan.stats.calculations = sources.length ∧
          plan.formulaCells = (plan.rows.flatMap (·.cells)).countP (·.isFormula) ∧
          plan.valueCells = (plan.rows.flatMap (·.cells)).countP (!·.isFormula) ∧
          plan.formulaCells + plan.valueCells = plan.stats.calculations * n ∧
          plan.degradedRows = plan.rows.countP fun row => row.cells.any (!·.isFormula) := by
  refine ⟨?_, fun error => ofSources_eq_error_iff, fun plan hplan => ?_⟩
  · constructor
    · rintro ⟨error, herror⟩
      obtain ⟨before, s, after, rfl, -, hmisfits⟩ := ofSources_eq_error_iff.mp herror
      exact ⟨s, by simp, hmisfits.not_fits⟩
    · rintro ⟨s, hs, hfits⟩
      cases hplan : ExportPlan.ofSources l n sources with
      | error error => exact ⟨error, rfl⟩
      | ok plan => exact absurd (fits_of_plan hplan s hs) hfits
  · obtain ⟨rows, hrows, hplan⟩ := bind_eq_ok_iff.mp hplan
    obtain rfl := pure_eq_ok_iff.mp hplan
    have hexported : List.Forall₂ (Exported l n) sources rows := (forall₂_of_mapM hrows).imp fun _ _ => exported_of_ofSource
    refine ⟨rfl, hexported, ?_, ?_, ?_, ?_, ?_⟩
    · rw [stats_eq, hexported.length_eq]
    · rw [ExportPlan.formulaCells, stats_eq]
    · rw [ExportPlan.valueCells, stats_eq]
    · calc
        _ = (rows.flatMap (·.cells)).countP (·.isFormula) + (rows.flatMap (·.cells)).countP (!·.isFormula) := by
          rw [ExportPlan.formulaCells, ExportPlan.valueCells, stats_eq]
        _ = (rows.flatMap (·.cells)).length := countP_add_countP _
        _ = rows.length * n := length_cells hexported
        _ = _ := by rw [stats_eq]
    · rw [ExportPlan.degradedRows, stats_eq, degradedRows_eq hexported]

end MonthlyModel.Sheet
