import MonthlyModel.Proofs.Sheet.Convertibility

/-! The columns that exported formulas name.

A shift past the last column has no formula, so whatever stands inside of a shift names columns that the
sheet has. A reference that stands outside of all shifts is written for the month of the cell without
such a check, or for the month before inside of PREVSUM. -/

namespace MonthlyModel.Sheet

open Formula (Expr Function Operator parse)

/-! ### Columns of a text -/

/-- The areas of cells that a term names. -/
def Term.areas : Term → List Area
  | .numeral _ | .text _ => []
  | .area a => [a]
  | .negate t => t.areas
  | .binary _ t u => t.areas ++ u.areas
  | .call _ ts => areasOfAll ts
where
  /-- The areas of cells that several terms name. -/
  areasOfAll : List Term → List Area
    | [] => []
    | t :: ts => t.areas ++ areasOfAll ts

/-- Both ends of an area are in columns that a sheet has. -/
def Area.OnSheet (a : Area) : Prop :=
  (1 ≤ a.firstColumn ∧ a.firstColumn ≤ Sheet.lastColumn) ∧ 1 ≤ a.lastColumn ∧ a.lastColumn ≤ Sheet.lastColumn

/-- All cells that a term names are in columns that a sheet has. -/
def Term.OnSheet (t : Term) : Prop :=
  ∀ a ∈ t.areas, a.OnSheet

/-! ### Months of an expression -/

/-- In a month an expression takes a reference from another month, inside of a shift or not. -/
inductive Reads : Expr → Nat → Bool → Nat → Prop where
  | reference (r : Reference) (p : Nat) : Reads (.reference r) p false p
  | negate {e : Expr} {p q : Nat} {inside : Bool} (h : Reads e p inside q) : Reads (.negate e) p inside q
  | left {o : Operator} {a b : Expr} {p q : Nat} {inside : Bool} (h : Reads a p inside q) :
    Reads (.binary o a b) p inside q
  | right {o : Operator} {a b : Expr} {p q : Nat} {inside : Bool} (h : Reads b p inside q) :
    Reads (.binary o a b) p inside q
  | argument {f : Function} {es : List Expr} {e : Expr} {p q : Nat} {inside : Bool} (hf : f.isShift = false)
    (he : e ∈ es) (h : Reads e p inside q) : Reads (.call f es) p inside q
  | before {e : Expr} {p q : Nat} {inside : Bool} (h : Reads e p inside q) :
    Reads (.call .prevsum [e]) (p + 1) inside q
  | shifted {e e' : Expr} {k : Int} {p target q : Nat} {inside : Bool} (hs : Shifts e' e k)
    (ht : (p : Int) - saturate k = target) (h : Reads e target inside q) : Reads e' p true q

variable {l : Layout} {e e' : Expr} {f : CellFormula} {home p q target : Nat} {k : Int} {inside : Bool}

theorem reads_number {x : Float} : ¬ Reads (.number x) p inside q := by
  intro h
  cases h with
  | shifted hs => cases hs

theorem reads_reference_iff {r : Reference} : Reads (.reference r) p inside q ↔ inside = false ∧ q = p := by
  constructor
  · intro h
    cases h with
    | reference => exact ⟨rfl, rfl⟩
    | shifted hs => cases hs
  · rintro ⟨rfl, rfl⟩
    exact .reference r _

theorem reads_negate_iff : Reads (.negate e) p inside q ↔ Reads e p inside q := by
  constructor
  · intro h
    cases h with
    | negate h => exact h
    | shifted hs => cases hs
  · exact .negate

theorem reads_binary_iff {o : Operator} {a b : Expr} :
    Reads (.binary o a b) p inside q ↔ Reads a p inside q ∨ Reads b p inside q := by
  constructor
  · intro h
    cases h with
    | left h => exact .inl h
    | right h => exact .inr h
    | shifted hs => cases hs
  · rintro (h | h)
    · exact .left h
    · exact .right h

theorem reads_call_iff {g : Function} {es : List Expr} (hg : g.isShift = false) :
    Reads (.call g es) p inside q ↔ ∃ e ∈ es, Reads e p inside q := by
  constructor
  · intro h
    cases h with
    | argument _ he h => exact ⟨_, he, h⟩
    | before => cases hg
    | shifted hs => cases hs <;> cases hg
  · rintro ⟨e, he, h⟩
    exact .argument hg he h

theorem reads_call_singleton_iff {g : Function} (hg : g.isShift = false) :
    Reads (.call g [e]) p inside q ↔ Reads e p inside q := by
  simp [reads_call_iff hg]

theorem reads_prevsum_zero : ¬ Reads (.call .prevsum [e]) 0 inside q := by
  intro h
  cases h with
  | argument hf => cases hf
  | shifted hs => cases hs

theorem reads_prevsum_succ_iff : Reads (.call .prevsum [e]) (p + 1) inside q ↔ Reads e p inside q := by
  constructor
  · intro h
    cases h with
    | argument hf => cases hf
    | before h => exact h
    | shifted hs => cases hs
  · exact .before

theorem reads_shifts_iff (hs : Shifts e' e k) : Reads e' p inside q ↔
    inside = true ∧ ∃ target : Nat, (p : Int) - saturate k = target ∧ ∃ inside, Reads e target inside q := by
  constructor
  · intro h
    cases hs with
    | prevval =>
      cases h with
      | argument hf => cases hf
      | shifted hs ht h =>
        cases hs
        exact ⟨rfl, _, ht, _, h⟩
    | shift ho =>
      cases h with
      | argument hf => cases hf
      | shifted hs ht h =>
        cases hs with
        | shift ho' =>
          cases ho.symm.trans ho'
          exact ⟨rfl, _, ht, _, h⟩
  · rintro ⟨rfl, target, ht, inside, h⟩
    exact .shifted hs ht h

theorem reads_of_asNumber? {x : Float} (hx : e.asNumber? = some x) : ¬ Reads e p inside q := by
  induction e using Expr.induct generalizing x with
  | number y => exact reads_number
  | negate e ih =>
    obtain ⟨y, hy, -⟩ := Option.map_eq_some_iff.mp hx
    exact fun h => ih hy (reads_negate_iff.mp h)
  | _ => cases hx

/-- Outside of shifts no later month is read. -/
theorem Reads.le_of_outside (h : Reads e p false q) : q ≤ p := by
  generalize hinside : false = inside at h
  induction h with
  | reference => exact Nat.le_refl _
  | negate _ ih | left _ ih | right _ ih | argument _ _ _ ih => exact ih hinside
  | before _ ih => exact Nat.le_succ_of_le (ih hinside)
  | shifted => cases hinside

/-! ### Shifts on a sheet -/

theorem target_of_before (h : (Surroundings.ofLayout l home).landing p (saturate k) = .before) :
    (p : Int) - saturate k ≠ target := by
  have hbefore := landing_eq_before_iff.mp h
  intro ht
  rw [ht, saturate_eq] at hbefore
  omega

theorem target_of_on (h : (Surroundings.ofLayout l home).landing p (saturate k) = .on target) :
    (p : Int) - saturate k = target ∧ l.firstColumn + target ≤ lastColumn := by
  obtain ⟨ht, hlimit⟩ := landing_eq_on_iff.mp h
  have hlimit : l.firstColumn + target ≤ 16384 := hlimit _ rfl
  refine ⟨?_, hlimit⟩
  rw [saturate_eq ((p : Int) - saturate k)] at ht
  omega

theorem SumsUp.reads {s : Surroundings} {position : Nat} (h : SumsUp s e position f) (hq : Reads e p inside q) :
    inside = false ∧ q = p := by
  cases h with
  | reference => exact reads_reference_iff.mp hq
  | product | sum => exact (reads_binary_iff.mp hq).elim reads_reference_iff.mp reads_reference_iff.mp
  | number hx => exact absurd hq (reads_of_asNumber? hx)

/-- What is read inside of a shift is in a column that the sheet has. -/
theorem Converts.le_of_inside (h : Converts (.ofLayout l home) e p f) (hq : Reads e p true q) :
    l.firstColumn + q ≤ lastColumn := by
  induction h with
  | number => exact absurd hq reads_number
  | reference => cases (reads_reference_iff.mp hq).1
  | negate _ ih => exact ih (reads_negate_iff.mp hq)
  | binary o _ _ ihl ihr => exact (reads_binary_iff.mp hq).elim ihl ihr
  | call hf _ hlength _ ih =>
    obtain ⟨e, he, hq⟩ := (reads_call_iff (isShift_of_not_isTemporal hf)).mp hq
    obtain ⟨g, hg⟩ := exists_mem_zip hlength he
    exact ih hg hq
  | cumsum h => cases (h.reads ((reads_call_singleton_iff rfl).mp hq)).1
  | cumprod | count => cases (reads_reference_iff.mp ((reads_call_singleton_iff rfl).mp hq)).1
  | prevsumFirst => exact absurd hq reads_prevsum_zero
  | prevsum h => cases (h.reads (reads_prevsum_succ_iff.mp hq)).1
  | before hs hl _ =>
    obtain ⟨-, target, ht, -⟩ := (reads_shifts_iff hs).mp hq
    exact absurd ht (target_of_before hl)
  | on hs hl _ ih =>
    obtain ⟨-, target, ht, inside, hq⟩ := (reads_shifts_iff hs).mp hq
    obtain ⟨hon, hlimit⟩ := target_of_on hl
    obtain rfl := Int.ofNat_inj.mp (ht.symm.trans hon)
    -- The target has a column; outside of further shifts nothing later than the target is read.
    cases inside with
    | true => exact ih hq
    | false => exact Nat.le_trans (Nat.add_le_add_left hq.le_of_outside _) hlimit

/-! ### Cells on a sheet -/

section
variable (t u : Term)

@[simp]
theorem areas_numeral (cs : List Char) : (Term.numeral cs).areas = [] :=
  rfl

@[simp]
theorem areas_text (cs : List Char) : (Term.text cs).areas = [] :=
  rfl

@[simp]
theorem areas_area (a : Area) : (Term.area a).areas = [a] :=
  rfl

@[simp]
theorem areas_negate : (Term.negate t).areas = t.areas :=
  rfl

@[simp]
theorem areas_binary (o : Operator) : (Term.binary o t u).areas = t.areas ++ u.areas :=
  rfl

@[simp]
theorem areas_call (name : List Char) (ts : List Term) : (Term.call name ts).areas = ts.flatMap Term.areas := by
  rw [Term.areas]
  induction ts with
  | nil => rfl
  | cons t ts ih => rw [Term.areas.areasOfAll, ih, List.flatMap_cons]

@[simp]
theorem areas_signed (cs : List Char) : (signed cs).areas = [] := by
  unfold signed
  split <;> rfl

@[simp]
theorem areas_operationTerm (o : Operator) : (operationTerm o t u).areas = t.areas ++ u.areas := by
  unfold operationTerm
  split
  · simp
  · split <;> simp

end

theorem terms_eq (fs : List CellFormula) : CellFormula.term.terms fs = fs.map CellFormula.term := by
  induction fs with
  | nil => rfl
  | cons f fs ih => rw [CellFormula.term.terms, ih, List.map_cons]

/-- All months that an expression reads have columns that the sheet has. -/
def StaysOn (l : Layout) (e : Expr) (p : Nat) : Prop :=
  ∀ inside q, Reads e p inside q → l.column q ≤ lastColumn

theorem staysOn_number (x : Float) : StaysOn l (.number x) p :=
  fun _ _ hq => absurd hq reads_number

@[simp]
theorem staysOn_reference (r : Reference) : StaysOn l (.reference r) p ↔ l.column p ≤ lastColumn := by
  simp [StaysOn, reads_reference_iff]

@[simp]
theorem staysOn_negate : StaysOn l (.negate e) p ↔ StaysOn l e p := by
  simp [StaysOn, reads_negate_iff]

@[simp]
theorem staysOn_binary (o : Operator) (a b : Expr) : StaysOn l (.binary o a b) p ↔ StaysOn l a p ∧ StaysOn l b p := by
  simp [StaysOn, reads_binary_iff, or_imp, forall_and]

theorem staysOn_call {g : Function} {es : List Expr} (hg : g.isShift = false) :
    StaysOn l (.call g es) p ↔ ∀ e ∈ es, StaysOn l e p := by
  simp only [StaysOn, reads_call_iff hg]
  exact ⟨fun h e he inside q hq => h inside q ⟨e, he, hq⟩, fun h inside q ⟨e, he, hq⟩ => h e he inside q hq⟩

theorem staysOn_call_singleton {g : Function} (hg : g.isShift = false) :
    StaysOn l (.call g [e]) p ↔ StaysOn l e p := by
  simp [staysOn_call hg]

theorem staysOn_prevsum : StaysOn l (.call .prevsum [e]) (p + 1) ↔ StaysOn l e p := by
  simp [StaysOn, reads_prevsum_succ_iff]

theorem staysOn_shifts (hs : Shifts e' e k) (ht : (p : Int) - saturate k = target) :
    StaysOn l e' p ↔ StaysOn l e target := by
  simp only [StaysOn, reads_shifts_iff hs, ht]
  constructor
  · exact fun h inside q hq => h true q ⟨rfl, target, rfl, inside, hq⟩
  · rintro h _ q ⟨-, t, ht, inside, hq⟩
    obtain rfl := Int.ofNat_inj.mp ht
    exact h inside q hq

theorem onSheet_number {x : Float} (h : numberFormula x = .ok f) : f.Regular ∧ f.term.areas = [] := by
  obtain ⟨hx, rfl⟩ := numberFormula_eq_ok_iff.mp h
  exact ⟨.number hx, areas_signed _⟩

theorem onSheet_counted {s : Surroundings} {x : Float} (h : countedFormula s x p = .ok f) :
    f.Regular ∧ f.term.areas = [] := by
  unfold countedFormula at h
  dsimp only at h
  split at h
  · cases h
    exact ⟨.columnsPast _, by simp [CellFormula.term]⟩
  · obtain ⟨g, hg, rfl⟩ := map_eq_ok_iff.mp h
    obtain ⟨hregular, hareas⟩ := onSheet_number hg
    exact ⟨.binary _ hregular (.columnsPast _), by simp [CellFormula.term, hareas]⟩

theorem onSheet_arguments {es : List Expr} {fs : List CellFormula}
    (h : List.Forall₂ (fun e f => f.Regular ∧ (f.term.OnSheet ↔ StaysOn l e p)) es fs) :
    (∀ f ∈ fs, f.Regular) ∧ ((∀ f ∈ fs, f.term.OnSheet) ↔ ∀ e ∈ es, StaysOn l e p) := by
  induction h with
  | nil => simp
  | cons h _ ih => exact ⟨List.forall_mem_cons.mpr ⟨h.1, ih.1⟩, by simp [h.2, ih.2]⟩

section
variable (hl : 0 < l.firstColumn)

include hl

theorem column_pos (hp : l.firstColumn + p < UInt32.size) : 0 < l.column p :=
  Layout.column_eq hp ▸ Nat.add_pos_left hl p

theorem onSheet_range {r : Reference} {range : RowRange} (h : (Surroundings.ofLayout l home).range r p = .ok range)
    (hp : l.firstColumn + p < UInt32.size) : range.Exists ∧ (range.term.OnSheet ↔ l.column p ≤ lastColumn) := by
  obtain ⟨row, -, rfl⟩ := map_eq_ok_iff.mp h
  have hzero : l.firstColumn + 0 < UInt32.size := Nat.lt_of_le_of_lt (Nat.add_le_add_left (Nat.zero_le p) _) hp
  have hfirst : l.column 0 ≤ l.column p := by
    rw [Layout.column_eq hzero, Layout.column_eq hp]
    exact Nat.add_le_add_left (Nat.zero_le p) _
  have hpos := column_pos hl hzero
  have hpos' := column_pos hl hp
  refine ⟨⟨hpos, hpos'⟩, ?_⟩
  change (∀ a ∈ [_], _) ↔ _
  rw [List.forall_mem_singleton]
  exact ⟨fun h => h.2.2, fun h => ⟨⟨hpos, Nat.le_trans hfirst h⟩, hpos', h⟩⟩

theorem SumsUp.onSheet_iff (h : SumsUp (.ofLayout l home) e p f) (hp : l.firstColumn + p < UInt32.size) :
    f.Regular ∧ (f.term.OnSheet ↔ StaysOn l e p) := by
  cases h with
  | reference h =>
    obtain ⟨hr, hon⟩ := onSheet_range hl h hp
    exact ⟨.sum hr, by simpa [CellFormula.term, Term.OnSheet] using hon⟩
  | product ha hb =>
    obtain ⟨hra, hona⟩ := onSheet_range hl ha hp
    obtain ⟨hrb, honb⟩ := onSheet_range hl hb hp
    exact ⟨.sumOfProducts hra hrb, by simpa [CellFormula.term, Term.OnSheet, or_imp, forall_and] using and_congr hona honb⟩
  | sum ha hb =>
    obtain ⟨hra, hona⟩ := onSheet_range hl ha hp
    obtain ⟨hrb, honb⟩ := onSheet_range hl hb hp
    exact ⟨.binary _ (.sum hra) (.sum hrb),
      by simpa [CellFormula.term, Term.OnSheet, or_imp, forall_and] using and_congr hona honb⟩
  | number hx h =>
    obtain ⟨hregular, hareas⟩ := onSheet_counted h
    refine ⟨hregular, iff_of_true (by simp [Term.OnSheet, hareas]) fun inside q hq => ?_⟩
    exact absurd hq (reads_of_asNumber? hx)

/-- A converted expression can be read back, and the cells that it names are in columns that the sheet has
    exactly if the months that it reads have such columns. -/
theorem Converts.onSheet_iff (h : Converts (.ofLayout l home) e p f) (hp : l.firstColumn + p < UInt32.size) :
    f.Regular ∧ (f.term.OnSheet ↔ StaysOn l e p) := by
  induction h with
  | number h =>
    obtain ⟨hregular, hareas⟩ := onSheet_number h
    exact ⟨hregular, iff_of_true (by simp [Term.OnSheet, hareas]) (staysOn_number _)⟩
  | reference h =>
    obtain ⟨row, -, rfl⟩ := map_eq_ok_iff.mp h
    have hpos := column_pos hl hp
    refine ⟨.cell hpos, ?_⟩
    rw [staysOn_reference]
    change (∀ a ∈ [_], _) ↔ _
    rw [List.forall_mem_singleton]
    exact ⟨fun h => h.2.2, fun h => ⟨⟨hpos, h⟩, hpos, h⟩⟩
  | negate _ ih =>
    obtain ⟨hregular, hon⟩ := ih hp
    exact ⟨.negate hregular, by simpa [CellFormula.term, Term.OnSheet] using hon⟩
  | binary o _ _ ihl ihr =>
    obtain ⟨hl, honl⟩ := ihl hp
    obtain ⟨hr, honr⟩ := ihr hp
    refine ⟨.binary o hl hr, ?_⟩
    simpa [CellFormula.term, Term.OnSheet, or_imp, forall_and] using and_congr honl honr
  | call hf _ hlength _ ih =>
    obtain ⟨hregular, hon⟩ := onSheet_arguments (List.forall₂_iff_zip.mpr ⟨hlength, fun hmem => ih hmem hp⟩)
    refine ⟨.call hf hregular, ?_⟩
    rw [staysOn_call (isShift_of_not_isTemporal hf), ← hon]
    simp only [CellFormula.term, terms_eq, Term.OnSheet, areas_call, List.flatMap_map, List.mem_flatMap]
    constructor
    · exact fun h f hf a ha => h a ⟨f, hf, ha⟩
    · rintro h a ⟨f, hf, ha⟩
      exact h f hf a ha
  | cumsum h =>
    obtain ⟨hregular, hon⟩ := h.onSheet_iff hl hp
    exact ⟨hregular, hon.trans (staysOn_call_singleton rfl).symm⟩
  | cumprod h =>
    obtain ⟨hr, hon⟩ := onSheet_range hl h hp
    refine ⟨.product hr, ?_⟩
    rw [staysOn_call_singleton rfl, staysOn_reference, ← hon]
    simp [CellFormula.term, Term.OnSheet]
  | count h =>
    obtain ⟨hr, hon⟩ := onSheet_range hl h hp
    refine ⟨.countNonzero hr, ?_⟩
    rw [staysOn_call_singleton rfl, staysOn_reference, ← hon]
    simp [CellFormula.term, Term.OnSheet]
  | prevsumFirst h =>
    obtain ⟨hregular, hareas⟩ := onSheet_number h
    exact ⟨hregular, iff_of_true (by simp [Term.OnSheet, hareas]) fun inside q hq => absurd hq reads_prevsum_zero⟩
  | prevsum h =>
    obtain ⟨hregular, hon⟩ := h.onSheet_iff hl (Nat.lt_of_succ_lt hp)
    exact ⟨hregular, hon.trans staysOn_prevsum.symm⟩
  | before hs hbefore h =>
    obtain ⟨hregular, hareas⟩ := onSheet_number h
    refine ⟨hregular, iff_of_true (by simp [Term.OnSheet, hareas]) fun inside q hq => ?_⟩
    obtain ⟨-, target, ht, -⟩ := (reads_shifts_iff hs).mp hq
    exact absurd ht (target_of_before hbefore)
  | on hs hon _ ih =>
    -- The target of a shift has a column that the sheet has.
    obtain ⟨htarget, hlimit⟩ := target_of_on hon
    obtain ⟨hregular, hon⟩ := ih (Nat.lt_of_le_of_lt hlimit (by decide))
    exact ⟨hregular, hon.trans (staysOn_shifts hs htarget).symm⟩

end

/-! ### Exports -/

theorem column_le (l : Layout) (p : Nat) : l.column p ≤ l.firstColumn + p :=
  Nat.mod_le _ _

/-- What a formula is converted to in a month. -/
theorem onSheet_of_convert {cs : List Char} (hl : l.Built) (hp : l.firstColumn + p < UInt32.size)
    (h : convert cs l p = .ok f) : f.Regular ∧ (f.term.OnSheet ↔ ∀ e, parse cs = .ok e → ∀ q, Reads e p false q → l.column q ≤ lastColumn) ∧
      ∀ e, parse cs = .ok e → ∀ q, Reads e p true q → l.firstColumn + q ≤ lastColumn := by
  cases he : parse cs with
  | error fault =>
    -- What does not parse has a formula only if it is blank: the number zero.
    have hzero : f = .number 0 := by
      unfold convert at h
      rw [he] at h
      split at h
      · exact (Except.ok.inj h).symm
      · split at h <;> cases h
    have hnumber : numberFormula 0 = .ok f := hzero ▸ if_pos (by decide)
    obtain ⟨hregular, hareas⟩ := onSheet_number hnumber
    exact ⟨hregular, by simp [Term.OnSheet, hareas], nofun⟩
  | ok e =>
    have hconverts := converts_of_convertExpr (Formula.applied_of_parse he) (convertExpr_of_convert he h)
    obtain ⟨hregular, hon⟩ := hconverts.onSheet_iff hl.firstColumn_pos hp
    refine ⟨hregular, hon.trans ⟨?_, ?_⟩, ?_⟩
    · rintro hstays e ⟨⟩ q
      exact hstays false q
    · intro h inside q hq
      cases inside with
      | false => exact h e rfl q hq
      | true => exact Nat.le_trans (column_le l q) (hconverts.le_of_inside hq)
    · rintro e ⟨⟩ q
      exact hconverts.le_of_inside

/-- In months whose column can be counted, what the text of an exported cell names is in columns that the sheet
    has, exactly if those references are that stand outside of all shifts. There is no formula where a shift leads
    past the last column, and none is wrong in a month that has a column itself. -/
theorem onSheet_iff_of_export {sources : List ExportSource} {source : ExportSource} {plan : ExportPlan} {row : ExportRow}
    {n i : Nat} (hplan : ExportPlan.ofSources l n sources = .ok plan) (hsource : sources[i]? = some source)
    (hrow : plan.rows[i]? = some row) (hl : l.Built) (hcell : row.cells[p]? = some (.formula f))
    (hp : l.firstColumn + p < UInt32.size) :
    let cs := source.calculation.formula.toList
    ∃ t, readFormula row.place.sheet (f.content row.place.sheet) = some t ∧
      (t.OnSheet ↔ ∀ e, parse cs = .ok e → ∀ q, Reads e p false q → l.column q ≤ lastColumn) ∧
      (∀ e, parse cs = .ok e → ∀ q, Reads e p true q → l.firstColumn + q ≤ lastColumn) ∧
      (l.firstColumn + p ≤ lastColumn → t.OnSheet) := by
  obtain ⟨-, hformula⟩ := formulaAt_of_plan hplan hsource hrow hcell
  obtain ⟨hregular, hon, hinside⟩ := onSheet_of_convert hl hp (convert_of_formulaAt hformula)
  refine ⟨f.term, hregular.readFormula, hon, hinside, fun hp => hon.mpr fun e he q hq => ?_⟩
  exact Nat.le_trans (column_le l q) (Nat.le_trans (Nat.add_le_add_left hq.le_of_outside _) hp)

/-! ### A copy from the last column on -/

/-- A layout with a row for a copy, whose first month is in the last column. -/
def edge : Layout :=
  ledger.withFirstColumn lastColumn

def copy : ExportSource :=
  ⟨.ofFormula 9 "Copy" "R4", [1, 2], false⟩

theorem built_edge : edge.Built :=
  .withFirstColumn built_ledger _

theorem get?_edge : edge.get? (.calculation 4) = some ⟨"Inputs", 10⟩ := by
  decide

theorem convert_edge (hp : 16384 + p < UInt32.size) : convert "R4".toList edge p = .ok (.cell ⟨"Inputs", 10, 16384 + p⟩) := by
  have hlooks : looksLikeFormula "R4".toList = true := by with_unfolding_all rfl
  rw [convert_of_parse parse_alone hlooks, convertExpr, Surroundings.cell, row_eq_ok_iff.mpr get?_edge, Except.map,
    column_ofLayout hp]
  rfl

theorem exists_plan_copy {x : Float} (hx : [(1 : Float), 2][p]? = some x) (hp : 16384 + p < UInt32.size) : ∃ row,
    ExportPlan.ofSources edge 2 [copy] = .ok ⟨2, [row]⟩ ∧ row.place = ⟨"Main", 2⟩ ∧
      row.cells[p]? = some (.formula (.cell ⟨"Inputs", 10, 16384 + p⟩)) := by
  have hplace : edge.get? copy.calculation.reference = some ⟨"Main", 2⟩ := by
    change edge.get? (.calculation 9) = _
    decide
  exact exists_plan_of_formulaAt hplace rfl hx (convert_edge hp)

theorem onSheet_iff_of_export_copy : ∃ row t,
    let f : CellFormula := .cell ⟨"Inputs", 10, 16384⟩
    ExportPlan.ofSources edge 2 [copy] = .ok ⟨2, [row]⟩ ∧ edge.Built ∧ row.cells[0]? = some (.formula f) ∧
      edge.firstColumn + 0 < UInt32.size ∧ edge.firstColumn + 0 ≤ lastColumn ∧
      readFormula row.place.sheet (f.content row.place.sheet) = some t ∧ t.OnSheet := by
  obtain ⟨row, hplan, -, hcell⟩ := exists_plan_copy (p := 0) rfl (by decide)
  obtain ⟨t, hread, -, -, hon⟩ := onSheet_iff_of_export (i := 0) hplan rfl rfl built_edge hcell (by decide)
  exact ⟨row, t, hplan, built_edge, hcell, by decide, by decide, hread, hon (by decide)⟩

/-- The second month has no column, and the formula of its cell names one all the same. -/
theorem not_onSheet_copy : ∃ row t,
    let f : CellFormula := .cell ⟨"Inputs", 10, 16385⟩
    ExportPlan.ofSources edge 2 [copy] = .ok ⟨2, [row]⟩ ∧ edge.Built ∧ row.cells[1]? = some (.formula f) ∧
      readFormula row.place.sheet (f.content row.place.sheet) = some t ∧ ¬ t.OnSheet := by
  obtain ⟨row, hplan, -, hcell⟩ := exists_plan_copy (p := 1) rfl (by decide)
  have hregular : (CellFormula.cell ⟨"Inputs", 10, 16385⟩).Regular := .cell (Nat.succ_pos _)
  refine ⟨row, _, hplan, built_edge, hcell, hregular.readFormula, fun h => ?_⟩
  have hlast : 16385 ≤ lastColumn := (h _ (List.mem_singleton_self _)).2.2
  exact absurd hlast (by decide)

end MonthlyModel.Sheet
