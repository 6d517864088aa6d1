import MonthlyModel.Proofs.Sheet.Convertibility

/-! Rows that degrade once.

Further left, a shift reaches no later column and may reach none at all, and running sums have shorter
ranges. So what has a formula in a month has one in every earlier month, and the row of a calculation is a
run of formulas with a run of values after it. -/

namespace MonthlyModel.Sheet

open Formula (Expr parse isBlankFormula)

variable {s : Surroundings} {e e' : Expr} {f : CellFormula} {l : Layout} {p q target : Nat} {k : Int} {r : Reference}

/-! ### Earlier months -/

theorem landing_earlier (h : s.landing q k = .on target) (hp : p ≤ q) :
    s.landing p k = .before ∨ ∃ t ≤ target, s.landing p k = .on t := by
  obtain ⟨htarget, hlimit⟩ := landing_eq_on_iff.mp h
  have hle : saturate (p - k) ≤ target := by
    simp only [saturate_eq] at htarget ⊢
    omega
  by_cases hbefore : saturate (p - k) < 0
  · exact .inl (landing_eq_before_iff.mpr hbefore)
  · refine .inr ⟨(saturate (p - k)).toNat, by omega, landing_eq_on_iff.mpr ⟨by omega, fun n hn => ?_⟩⟩
    have := hlimit n hn
    omega

theorem isSome_row?_of_range {range : RowRange} (h : s.range r p = .ok range) : (s.row? r).isSome = true := by
  obtain ⟨row, hrow, -⟩ := map_eq_ok_iff.mp h
  rw [row_eq_ok_iff.mp hrow]
  rfl

theorem isSome_row?_of_cell {cell : Cell} (h : s.cell r p = .ok cell) : (s.row? r).isSome = true := by
  obtain ⟨row, hrow, -⟩ := map_eq_ok_iff.mp h
  rw [row_eq_ok_iff.mp hrow]
  rfl

theorem references_of_asNumber? {x : Float} (h : e.asNumber? = some x) : e.references = [] := by
  induction e using Expr.induct generalizing x with
  | number => rfl
  | negate e ih =>
    obtain ⟨y, hy, -⟩ := Option.map_eq_some_iff.mp h
    exact ih hy
  | _ => cases h

theorem SumsUp.rows (h : SumsUp s e q f) : ∀ r ∈ e.references, (s.row? r).isSome = true := by
  cases h with
  | reference h => exact List.forall_mem_singleton.mpr (isSome_row?_of_range h)
  | product ha hb | sum ha hb =>
    exact List.forall_mem_cons.mpr ⟨isSome_row?_of_range ha, List.forall_mem_singleton.mpr (isSome_row?_of_range hb)⟩
  | number hx h => simp [references_of_asNumber? hx]

/-- The surroundings of another cell in the same row. -/
def Surroundings.ofCell (s : Surroundings) (home : Nat) : Surroundings :=
  { s with home := home }

theorem SumsUp.exists_ofCell (h : SumsUp s e q f) (home p : Nat) : ∃ g, runningSum (s.ofCell home) e p = .ok g := by
  have hrows : ∀ r ∈ e.references, ((s.ofCell home).row? r).isSome = true := h.rows
  exact h.exists_runningSum hrows p

theorem exists_convertAll {es : List Expr} (h : ∀ e ∈ es, ∃ f, convertExpr s e p = .ok f) :
    ∃ fs, convertAll s es p = .ok fs := by
  induction es with
  | nil =>
    rw [convertAll]
    exact ⟨[], rfl⟩
  | cons e es ih =>
    obtain ⟨⟨f, hf⟩, hes⟩ := List.forall_mem_cons.mp h
    obtain ⟨fs, hfs⟩ := ih hes
    rw [convertAll, hf, hfs]
    exact ⟨f :: fs, rfl⟩

/-- What is converted for a month is converted for every earlier one, in any cell of the row. -/
theorem Converts.earlier (h : Converts s e q f) (home : Nat) (hp : p ≤ q) :
    ∃ g, convertExpr (s.ofCell home) e p = .ok g := by
  induction h generalizing p with
  | number h =>
    rw [convertExpr]
    exact ⟨_, h⟩
  | reference h =>
    rw [convertExpr]
    obtain ⟨cell, hcell⟩ := exists_cell (s := s.ofCell home) (isSome_row?_of_cell h) p
    exact ⟨_, map_eq_ok_iff.mpr ⟨cell, hcell, rfl⟩⟩
  | negate _ ih =>
    obtain ⟨g, hg⟩ := ih hp
    rw [convertExpr, hg]
    exact ⟨_, rfl⟩
  | binary o _ _ iha ihb =>
    obtain ⟨f, hf⟩ := iha hp
    obtain ⟨g, hg⟩ := ihb hp
    rw [convertExpr, hf, hg]
    exact ⟨_, rfl⟩
  | call hf _ hlength _ ih =>
    rw [convertExpr_call hf]
    obtain ⟨fs, hfs⟩ := exists_convertAll fun e he => by
      obtain ⟨g, hg⟩ := exists_mem_zip hlength he
      exact ih hg hp
    rw [hfs]
    exact ⟨_, rfl⟩
  | cumsum h =>
    rw [convertExpr]
    exact h.exists_ofCell home p
  | cumprod h | count h =>
    rw [convertExpr]
    obtain ⟨range, hrange⟩ := exists_range (s := s.ofCell home) (isSome_row?_of_range h) p
    exact ⟨_, map_eq_ok_iff.mpr ⟨range, hrange, rfl⟩⟩
  | prevsumFirst h =>
    rw [convertExpr, if_pos (Nat.le_zero.mp hp)]
    exact ⟨_, h⟩
  -- In the first month there is nothing to sum. Any other sum needs only the rows that it had.
  | prevsum h =>
    rw [convertExpr]
    split
    · exact ⟨_, if_pos (by decide)⟩
    · exact h.exists_ofCell home (p - 1)
  | before hs hl h =>
    have hbefore : (s.ofCell home).landing p _ = .before := landing_before_of_le hl hp
    rw [convertExpr_shifts hs, convertShifted, hbefore]
    exact ⟨_, h⟩
  | on hs hl _ ih =>
    rw [convertExpr_shifts hs, convertShifted]
    rcases landing_earlier (s := s.ofCell home) hl hp with hbefore | ⟨t, ht, hon⟩
    · rw [hbefore]
      exact ⟨_, if_pos (by decide)⟩
    · rw [hon]
      exact ih ht

/-- A formula that has a cell in a month has one in every earlier month. -/
theorem convert_earlier {cs : List Char} (h : convert cs l q = .ok f) (hp : p ≤ q) : ∃ g, convert cs l p = .ok g := by
  unfold convert at h ⊢
  split
  · exact ⟨_, rfl⟩
  · next hblank =>
    rw [if_neg hblank] at h
    split
    · next hprose =>
      rw [if_pos hprose] at h
      cases h
    · next hprose =>
      rw [if_neg hprose] at h
      cases he : parse cs with
      | error fault =>
        rw [he] at h
        cases h
      | ok e =>
        rw [he] at h
        exact (converts_of_convertExpr (Formula.applied_of_parse he) h).earlier p hp

/-! ### Rows -/

/-- Attempts from a month on: formulas as far as there are any, then values, and the reason of the first of
    them. -/
structure Runs (g : Nat → Except ExportError CellFormula) (xs : Series Float) (start : Nat) (fs : List CellFormula) :
    Prop where
  length_le : fs.length ≤ xs.length
  formulas : ∀ p f, fs[p]? = some f → g (start + p) = .ok f
  values : ∀ p, fs.length ≤ p → p < xs.length → ∃ error, g (start + p) = .error error
  cells : (xs.zipIdx start).map (fun x => ExportCell.ofAttempt (g x.2, x.1)) =
    fs.map .formula ++ (xs.drop fs.length).map .value
  reason : ∀ error, (xs.zipIdx start).findSome? (fun x => reason? (g x.2, x.1)) = some error ↔
    fs.length < xs.length ∧ g (start + fs.length) = .error error

section
variable {g : Nat → Except ExportError CellFormula} {xs : Series Float} {start : Nat} {fs : List CellFormula}

theorem Runs.cons (h : Runs g xs (start + 1) fs) (hf : g start = .ok f) (x : Float) : Runs g (x :: xs) start (f :: fs) := by
  have hsucc (p : Nat) : start + (p + 1) = start + 1 + p := by omega
  refine ⟨Nat.succ_le_succ h.length_le, fun p f' hp => ?_, fun p hp hlt => ?_, ?_, fun error => ?_⟩
  · cases p with
    | zero =>
      cases hp
      exact hf
    | succ p =>
      rw [hsucc]
      exact h.formulas p f' hp
  · cases p with
    | zero => exact absurd hp (Nat.not_succ_le_zero _)
    | succ p =>
      rw [hsucc]
      exact h.values p (Nat.le_of_succ_le_succ hp) (Nat.lt_of_succ_lt_succ hlt)
  · rw [List.zipIdx_cons, List.map_cons, h.cells, hf]
    rfl
  · rw [List.zipIdx_cons, List.findSome?_cons, hf, List.length_cons, List.length_cons, hsucc fs.length, Nat.add_lt_add_iff_right]
    exact h.reason error

theorem Runs.stop (h : ∀ p, start ≤ p → ∃ error, g p = .error error) : Runs g xs start [] := by
  refine ⟨Nat.zero_le _, by simp, fun p _ _ => h _ (Nat.le_add_right start p), ?_, fun error => ?_⟩
  · have hvalue : ∀ x ∈ xs.zipIdx start, ExportCell.ofAttempt (g x.2, x.1) = .value x.1 := by
      intro x hx
      obtain ⟨error, herror⟩ := h x.2 (List.mem_zipIdx hx).1
      rw [herror]
      rfl
    calc
      _ = (xs.zipIdx start).map (ExportCell.value ∘ Prod.fst) := List.map_congr_left hvalue
      _ = xs.map .value := by rw [← List.map_map, List.zipIdx_map_fst]
  · obtain ⟨first, hfirst⟩ := h start (Nat.le_refl start)
    cases xs with
    | nil => simp
    | cons x xs => simp [List.zipIdx_cons, hfirst, reason?]

/-- Attempts that succeed in all months before one in which they succeed are a run of formulas and a run of
    values. -/
theorem exists_runs (hg : ∀ p q, p ≤ q → (∃ f, g q = .ok f) → ∃ f, g p = .ok f) (xs : Series Float) (start : Nat) :
    ∃ fs, Runs g xs start fs := by
  induction xs generalizing start with
  | nil => exact ⟨[], by constructor <;> simp⟩
  | cons x xs ih =>
    cases hstart : g start with
    | ok f =>
      obtain ⟨fs, hruns⟩ := ih (start + 1)
      exact ⟨f :: fs, hruns.cons hstart x⟩
    | error fault =>
      refine ⟨[], .stop fun p hp => ?_⟩
      cases hgp : g p with
      | error error => exact ⟨error, rfl⟩
      | ok f =>
        obtain ⟨f', hf'⟩ := hg start p hp ⟨f, hgp⟩
        cases hstart.symm.trans hf'

end

/-- The row of a calculation without an error degrades once: a formula that has a cell in a month has one in
    all earlier months, so the row is a run of formulas and a run of values, and it is degraded for the
    reason of the first value. -/
theorem degrades_once {sources : List ExportSource} {source : ExportSource} {plan : ExportPlan} {n i : Nat}
    (hplan : ExportPlan.ofSources l n sources = .ok plan) (hsource : sources[i]? = some source)
    (hfailed : source.failed = false) :
    let cs := source.calculation.formula.toList
    (∀ p q, p ≤ q → (∃ f, convert cs l q = .ok f) → ∃ f, convert cs l p = .ok f) ∧
      ∃ row, ∃ fs : List CellFormula, plan.rows[i]? = some row ∧ fs.length ≤ n ∧
        row.cells = fs.map .formula ++ (source.values.drop fs.length).map .value ∧
        (∀ p f, fs[p]? = some f → convert cs l p = .ok f) ∧
        (∀ p, fs.length ≤ p → p < n → ∃ error, convert cs l p = .error error) ∧
        ∀ error, row.degraded = some error ↔ fs.length < n ∧ convert cs l fs.length = .error error := by
  intro cs
  have hearlier : ∀ p q, p ≤ q → (∃ f, convert cs l q = .ok f) → ∃ f, convert cs l p = .ok f :=
    fun p q hp ⟨f, hf⟩ => convert_earlier hf hp
  refine ⟨hearlier, ?_⟩
  obtain ⟨row, hrow, hofSource⟩ := exists_row_of_plan hplan hsource
  obtain ⟨-, hlength, hcells, hdegraded⟩ := ofSource_eq_ok hofSource
  -- Without an error the attempts of the row are the conversions.
  have hattempt : source.formulaAt l = convert cs l := by
    funext p
    rw [ExportSource.formulaAt, hfailed]
    rfl
  rw [hattempt] at hcells hdegraded
  obtain ⟨fs, hruns⟩ := exists_runs hearlier source.values 0
  obtain ⟨hle, hformulas, hvalues, hruncells, hreason⟩ := hruns
  simp only [Nat.zero_add, hlength] at hle hformulas hvalues hreason
  exact ⟨row, fs, hrow, hle, hcells.trans hruncells, hformulas, hvalues, fun error => hdegraded ▸ hreason error⟩

/-! ### A row with one formula -/

/-- The sum of the year as of the month before. -/
def carried : ExportSource :=
  ⟨.ofFormula 9 "Carried" "PREVVAL(CUMSUM_Y(R4))", [0, 1, 3], false⟩

theorem parse_carried : parse "PREVVAL(CUMSUM_Y(R4))".toList =
    .ok (.call .prevval [.call .cumsumByYear [.reference (.calculation 4)]]) := by
  cbv

/-- There is nothing before the first month, and later on the sum of a year has no formula. -/
theorem convert_carried : convert "PREVVAL(CUMSUM_Y(R4))".toList ledger 0 = .ok (.number 0) ∧
    convert "PREVVAL(CUMSUM_Y(R4))".toList ledger 1 = .error (.unconvertible (.yearReset .cumsumByYear)) := by
  have hlooks : looksLikeFormula "PREVVAL(CUMSUM_Y(R4))".toList = true := by with_unfolding_all rfl
  have hbefore : (Surroundings.ofLayout ledger 0).landing 0 1 = .before := rfl
  have hon : (Surroundings.ofLayout ledger 1).landing 1 1 = .on 0 := rfl
  constructor
  · rw [convert_of_parse parse_carried hlooks, convertExpr, convertShifted, hbefore]
    exact if_pos (by decide)
  · rw [convert_of_parse parse_carried hlooks, convertExpr, convertShifted, hon]
    dsimp only
    rw [convertExpr]

theorem degrades_once_carried : ∃ row, ExportPlan.ofSources ledger 3 [carried] = .ok ⟨3, [row]⟩ ∧
    carried.failed = false ∧ row.cells = [.formula (.number 0), .value 1, .value 3] ∧
      row.degraded = some (.unconvertible (.yearReset .cumsumByYear)) := by
  obtain ⟨hfirst, hsecond⟩ := convert_carried
  have hplace : ledger.get? carried.calculation.reference = some ⟨"Main", 2⟩ := by
    change ledger.get? (.calculation 9) = _
    decide
  have hvalue : carried.values[0]? = some 0 := rfl
  obtain ⟨row, hplan, -⟩ := exists_plan_of_formulaAt hplace rfl hvalue hfirst
  obtain ⟨-, row', fs, ⟨⟩, -, hcells, hformulas, hvalues, hdegraded⟩ := degrades_once (i := 0) hplan rfl rfl
  rcases fs with _ | ⟨f, _ | ⟨f', fs⟩⟩
  · obtain ⟨error, herror⟩ := hvalues 0 (Nat.le_refl 0) (by decide)
    cases hfirst.symm.trans herror
  · cases hfirst.symm.trans (hformulas 0 f rfl)
    exact ⟨row, hplan, rfl, hcells, (hdegraded _).mpr ⟨by decide, hsecond⟩⟩
  · cases hsecond.symm.trans (hformulas 1 f' rfl)

end MonthlyModel.Sheet
