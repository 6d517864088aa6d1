import MonthlyModel.Proofs.Formula.Names
import MonthlyModel.Proofs.Sheet.Lead

/-! Formulas that have a cell in every column.

One conversion decides about all columns: in a cell far to the right, on a sheet without end on which
every reference has a row. What succeeds there succeeds further left, where a shift reaches no month
that it does not reach there, and may only reach fewer. A sheet that ends adds one way to fail, for
shifts with a negative offset. -/

namespace MonthlyModel

namespace Formula

/-- The functions that an expression calls. -/
def Expr.functions : Expr → List Function
  | .number _ | .reference _ => []
  | .negate e => e.functions
  | .binary _ l r => l.functions ++ r.functions
  | .call f es => f :: functionsOfAll es
where
  /-- The functions that several expressions call. -/
  functionsOfAll : List Expr → List Function
    | [] => []
    | e :: es => e.functions ++ functionsOfAll es

theorem Expr.functions_call (f : Function) (es : List Expr) :
    (call f es).functions = f :: es.flatMap functions := by
  rw [functions]
  congr 1
  induction es with
  | nil => rfl
  | cons e es ih => rw [functions.functionsOfAll, ih, List.flatMap_cons]

/-- SHIFT, PREVVAL and PREVSUM, which leave the month of the cell. -/
def Function.isShift : Function → Bool
  | .shift | .prevval | .prevsum => true
  | _ => false

/-- An expression calls one of them. -/
def Expr.Shifting (e : Expr) : Prop :=
  ∃ f ∈ e.functions, f.isShift = true

theorem Expr.shifting_call {f : Function} (h : f.isShift = true) (es : List Expr) : (call f es).Shifting :=
  ⟨f, by simp [functions_call], h⟩

end Formula

namespace Sheet

open Formula (Expr Function Operator parse namedReferences isBlankFormula)

variable {s s' : Surroundings} {e e' : Expr} {position q target : Nat} {f : CellFormula} {k : Int} {r : Reference}
  {l : Layout} {cs : List Char} {p : Nat}

/-! ### Outcomes -/

/-- There is a last column, and an expression has a shift with a negative offset that may lead past it. -/
def Surroundings.Overruns (s : Surroundings) (e : Expr) : Prop :=
  s.limit ≠ none ∧ ∃ o ∈ e.offsets, ∃ k < 0, o.asNumber?.bind Decimal.whole? = some k

theorem Surroundings.Overruns.mono (h : s.Overruns e) (ho : e.offsets ⊆ e'.offsets) : s.Overruns e' := by
  obtain ⟨hlimit, o, hmem, hk⟩ := h
  exact ⟨hlimit, o, ho hmem, hk⟩

/-- A conversion succeeds, or fails at the last column where that may happen. -/
def Passes {β : Type} (overruns : Prop) (x : Except ExportError β) : Prop :=
  (∃ b, x = .ok b) ∨ overruns ∧ x = .error (.unconvertible .pastLastColumn)

namespace Passes

variable {β γ : Type} {P Q : Prop} {x : Except ExportError β} {g : β → Except ExportError γ}

theorem mono (h : Passes P x) (hPQ : P → Q) : Passes Q x :=
  h.imp_right fun ⟨hP, hx⟩ => ⟨hPQ hP, hx⟩

theorem bind (h : Passes P x) (hg : ∀ b, Passes P (g b)) : Passes P (x >>= g) := by
  rcases h with ⟨b, rfl⟩ | ⟨hP, rfl⟩
  · exact hg b
  · exact .inr ⟨hP, rfl⟩

theorem of_ok {b : β} (h : x = .ok b) : Passes P x :=
  .inl ⟨b, h⟩

end Passes

theorem passes_convertAll {es : List Expr} (h : ∀ e ∈ es, Passes (s.Overruns e) (convertExpr s e position)) :
    Passes (∃ e ∈ es, s.Overruns e) (convertAll s es position) := by
  induction es with
  | nil =>
    rw [convertAll]
    exact .of_ok rfl
  | cons e es ih =>
    obtain ⟨he, hes⟩ := List.forall_mem_cons.mp h
    rw [convertAll]
    refine (he.mono fun ho => ⟨e, by simp, ho⟩).bind fun g => ?_
    refine ((ih hes).mono ?_).bind fun gs => .of_ok rfl
    rintro ⟨e', hmem, ho⟩
    exact ⟨e', List.mem_cons_of_mem _ hmem, ho⟩

/-! ### Parts that succeed wherever references have rows -/

theorem exists_range (h : (s.row? r).isSome = true) (position : Nat) : ∃ range, s.range r position = .ok range := by
  obtain ⟨row, hrow⟩ := Option.isSome_iff_exists.mp h
  exact ⟨_, map_eq_ok_iff.mpr ⟨row, row_eq_ok_iff.mpr hrow, rfl⟩⟩

theorem exists_cell (h : (s.row? r).isSome = true) (position : Nat) : ∃ cell, s.cell r position = .ok cell := by
  obtain ⟨row, hrow⟩ := Option.isSome_iff_exists.mp h
  exact ⟨_, map_eq_ok_iff.mpr ⟨row, row_eq_ok_iff.mpr hrow, rfl⟩⟩

theorem exists_countedFormula {x : Float} (h : countedFormula s x q = .ok f) (s' : Surroundings) (position : Nat) :
    ∃ g, countedFormula s' x position = .ok g := by
  unfold countedFormula at h ⊢
  dsimp only at h ⊢
  split
  · exact ⟨_, rfl⟩
  · next hx =>
    rw [if_neg hx] at h
    obtain ⟨g, hg, -⟩ := map_eq_ok_iff.mp h
    exact ⟨_, map_eq_ok_iff.mpr ⟨g, hg, rfl⟩⟩

theorem runningSum_of_asNumber? {x : Float} (hx : e.asNumber? = some x) :
    runningSum s e position = countedFormula s x position := by
  cases e with
  | number _ | negate _ =>
    unfold runningSum
    dsimp only
    rw [hx]
  | _ => cases hx

/-- A running sum that has a formula in one place has one wherever its references have rows. -/
theorem SumsUp.exists_runningSum (h : SumsUp s e q f) (hrows : ∀ r ∈ e.references, (s'.row? r).isSome = true)
    (position : Nat) : ∃ g, runningSum s' e position = .ok g := by
  cases h with
  | @reference r _ range =>
    obtain ⟨range, hrange⟩ := exists_range (hrows r (List.mem_singleton_self _)) position
    exact ⟨_, map_eq_ok_iff.mpr ⟨range, hrange, rfl⟩⟩
  | @product a b | @sum a b =>
    obtain ⟨ra, ha⟩ := exists_range (hrows a (by simp [Expr.references])) position
    obtain ⟨rb, hb⟩ := exists_range (hrows b (by simp [Expr.references])) position
    exact ⟨_, bind_eq_ok_iff.mpr ⟨ra, ha, bind_eq_ok_iff.mpr ⟨rb, hb, rfl⟩⟩⟩
  | number hx h =>
    rw [runningSum_of_asNumber? hx]
    exact exists_countedFormula h s' position

theorem isShift_of_not_isTemporal {g : Function} (hg : g.isTemporal = false) : g.isShift = false := by
  cases g with
  | abs | max | min => rfl
  | _ => cases hg

theorem convertExpr_call {g : Function} (hg : g.isTemporal = false) (es : List Expr) :
    convertExpr s (.call g es) position = (do return .call g (← convertAll s es position)) := by
  cases g with
  | abs | max | min => rw [convertExpr]
  | _ => cases hg

theorem convertExpr_shifts (hs : Shifts e' e k) :
    convertExpr s e' position = convertShifted s e position (saturate k) := by
  cases hs with
  | prevval =>
    rw [convertExpr]
    rfl
  | shift ho =>
    rw [convertExpr, writtenOffset, ho]
    rfl

/-! ### Landings -/

theorem landing_before_of_le (h : s.landing q k = .before) (hp : position ≤ q) : s'.landing position k = .before := by
  have hq := landing_eq_before_iff.mp h
  refine landing_eq_before_iff.mpr (Int.lt_of_le_of_lt ?_ hq)
  simp only [saturate_eq]
  omega

theorem landing_of_le (h : s.landing q (saturate k) = .on target) (hp : position ≤ q)
    (hlimit : ∀ n ∈ s'.limit, s'.firstColumn + position ≤ n) :
    s'.landing position (saturate k) = .before ∨
      (∃ t ≤ target, (∀ n ∈ s'.limit, s'.firstColumn + t ≤ n) ∧ s'.landing position (saturate k) = .on t) ∨
      k < 0 ∧ s'.limit ≠ none ∧ s'.landing position (saturate k) = .past := by
  have htarget := (landing_eq_on_iff.mp h).1
  have hle : saturate (position - saturate k) ≤ target := by
    simp only [saturate_eq] at htarget ⊢
    omega
  -- From an earlier month the target is an earlier one. Past the end only a lead gets from within.
  cases hl : s'.landing position (saturate k) with
  | before => exact .inl rfl
  | on t =>
    obtain ⟨ht, hwithin⟩ := landing_eq_on_iff.mp hl
    exact .inr (.inl ⟨t, by omega, hwithin, rfl⟩)
  | past =>
    obtain ⟨-, n, hn, hpast⟩ := landing_eq_past_iff.mp hl
    have hend := hlimit n hn
    refine .inr (.inr ⟨?_, fun hnone => by simp [hnone] at hn, rfl⟩)
    simp only [saturate_eq] at hpast
    omega

/-! ### Other columns of other sheets -/

theorem exists_mem_zip {es : List Expr} {fs : List CellFormula} (hlength : es.length = fs.length) (he : e ∈ es) :
    ∃ f, (e, f) ∈ es.zip fs := by
  obtain ⟨i, hi, rfl⟩ := List.mem_iff_getElem.mp he
  exact ⟨_, List.mem_iff_getElem.mpr ⟨i, by simpa [← hlength] using hi, List.getElem_zip⟩⟩

/-- What it takes to convert an expression in other surroundings than for the month `q`: rows for its
    references and, if it shifts, an earlier month in a column that the sheet has. -/
structure Hosts (s : Surroundings) (e : Expr) (position q : Nat) : Prop where
  rows : ∀ r ∈ e.references, (s.row? r).isSome = true
  shifting : e.Shifting → position ≤ q ∧ ∀ n ∈ s.limit, s.firstColumn + position ≤ n

theorem Hosts.part (h : Hosts s e' position q) (hr : e.references ⊆ e'.references) (hf : e.functions ⊆ e'.functions) :
    Hosts s e position q :=
  ⟨fun r hmem => h.rows r (hr hmem), fun ⟨g, hg, hshift⟩ => h.shifting ⟨g, hf hg, hshift⟩⟩

theorem Hosts.of_negate (h : Hosts s (.negate e) position q) : Hosts s e position q :=
  ⟨h.rows, h.shifting⟩

theorem Hosts.of_binary {o : Operator} {a b : Expr} (h : Hosts s (.binary o a b) position q) :
    Hosts s a position q ∧ Hosts s b position q :=
  ⟨h.part (List.subset_append_left _ _) (List.subset_append_left _ _),
    h.part (List.subset_append_right _ _) (List.subset_append_right _ _)⟩

theorem references_subset_call {g : Function} {es : List Expr} (he : e ∈ es) :
    e.references ⊆ (Expr.call g es).references := by
  rw [Expr.references_call]
  exact fun r hr => List.mem_flatMap.mpr ⟨e, he, hr⟩

theorem offsets_subset_call {g : Function} {es : List Expr} (he : e ∈ es) : e.offsets ⊆ (Expr.call g es).offsets := by
  rw [Formula.offsets_call]
  exact fun o ho => List.mem_append_right _ (List.mem_flatMap.mpr ⟨e, he, ho⟩)

theorem Hosts.of_call {g : Function} {es : List Expr} (h : Hosts s (.call g es) position q) :
    ∀ e ∈ es, Hosts s e position q := by
  intro e he
  refine h.part (references_subset_call he) ?_
  rw [Expr.functions_call]
  exact fun f hf => List.mem_cons_of_mem _ (List.mem_flatMap.mpr ⟨e, he, hf⟩)

theorem mem_of_shifts (hs : Shifts e' e k) : ∃ g es, e' = .call g es ∧ g.isShift = true ∧ e ∈ es := by
  cases hs with
  | prevval => exact ⟨_, _, rfl, rfl, by simp⟩
  | shift => exact ⟨_, _, rfl, rfl, by simp⟩

theorem overruns_of_shifts (hs : Shifts e' e k) (hk : k < 0) (hlimit : s.limit ≠ none) : s.Overruns e' := by
  cases hs with
  | prevval => cases hk
  | @shift _ o _ ho => exact ⟨hlimit, o, by simp [Formula.offsets_call], k, hk, ho⟩

theorem Passes.shifted (hs : Shifts e' e k) (hl : s.landing q (saturate k) = .on target)
    (hhosts : Hosts s' e' position q)
    (ih : ∀ {position}, Hosts s' e position target → Passes (s'.Overruns e) (convertExpr s' e position)) :
    Passes (s'.Overruns e') (convertExpr s' e' position) := by
  rw [convertExpr_shifts hs, convertShifted]
  obtain ⟨g, es, rfl, hg, hmem⟩ := mem_of_shifts hs
  obtain ⟨hle, hlimit⟩ := hhosts.shifting (Expr.shifting_call hg es)
  rcases landing_of_le hl hle hlimit with hbefore | ⟨t, ht, hwithin, hon⟩ | ⟨hk, hends, hpast⟩
  · rw [hbefore]
    exact .of_ok (if_pos (by decide))
  · rw [hon]
    exact (ih ⟨(hhosts.of_call e hmem).rows, fun _ => ⟨ht, hwithin⟩⟩).mono fun ho => ho.mono (offsets_subset_call hmem)
  · rw [hpast]
    exact .inr ⟨overruns_of_shifts hs hk hends, rfl⟩

/-- What is converted in one place is converted on all sheets with rows for its references, in all earlier
    columns that the sheet has, if it shifts, and in all columns otherwise. Only a shift may fail. -/
theorem Converts.passes (h : Converts s e q f) (hhosts : Hosts s' e position q) :
    Passes (s'.Overruns e) (convertExpr s' e position) := by
  induction h generalizing position with
  | number h =>
    rw [convertExpr]
    exact .of_ok h
  | @reference r _ _ h =>
    rw [convertExpr]
    obtain ⟨cell, hcell⟩ := exists_cell (hhosts.rows r (List.mem_singleton_self _)) position
    exact .of_ok (map_eq_ok_iff.mpr ⟨cell, hcell, rfl⟩)
  | negate _ ih =>
    rw [convertExpr]
    exact (ih hhosts.of_negate).bind fun g => .of_ok rfl
  | binary o _ _ ihl ihr =>
    rw [convertExpr]
    obtain ⟨hl, hr⟩ := hhosts.of_binary
    refine ((ihl hl).mono fun h => h.mono (List.subset_append_left _ _)).bind fun f => ?_
    exact ((ihr hr).mono fun h => h.mono (List.subset_append_right _ _)).bind fun g => .of_ok rfl
  | call hf _ hlength _ ih =>
    rw [convertExpr_call hf]
    refine Passes.bind ?_ fun gs => .of_ok rfl
    refine (passes_convertAll fun e he => ?_).mono ?_
    · obtain ⟨g, hg⟩ := exists_mem_zip hlength he
      exact ih hg (hhosts.of_call e he)
    · rintro ⟨e, he, h⟩
      exact h.mono (offsets_subset_call he)
  | @cumsum e _ _ h =>
    rw [convertExpr]
    obtain ⟨g, hg⟩ := h.exists_runningSum (hhosts.of_call e (by simp)).rows position
    exact .of_ok hg
  | @cumprod r _ _ _ | @count r _ _ _ =>
    rw [convertExpr]
    obtain ⟨range, hrange⟩ := exists_range ((hhosts.of_call (.reference r) (by simp)).rows r (List.mem_singleton_self r)) position
    exact .of_ok (map_eq_ok_iff.mpr ⟨range, hrange, rfl⟩)
  -- The sum of the months before counts as a shift, so the other place is in the first month, too.
  | prevsumFirst h =>
    rw [convertExpr, if_pos (Nat.le_zero.mp (hhosts.shifting (Expr.shifting_call rfl _)).1)]
    exact .of_ok h
  | @prevsum e _ _ h =>
    rw [convertExpr]
    split
    · exact .of_ok (if_pos (by decide))
    · obtain ⟨g, hg⟩ := h.exists_runningSum (hhosts.of_call e (by simp)).rows (position - 1)
      exact .of_ok hg
  | before hs hl h =>
    obtain ⟨g, es, rfl, hg, -⟩ := mem_of_shifts hs
    rw [convertExpr_shifts hs, convertShifted, landing_before_of_le hl (hhosts.shifting (Expr.shifting_call hg es)).1]
    exact .of_ok h
  | on hs hl _ ih => exact .shifted hs hl hhosts ih

/-! ### Texts -/

/-- No function of a formula is a shift. -/
def Unshifted (cs : List Char) : Prop :=
  ∀ e, parse cs = .ok e → ¬ e.Shifting

theorem convert_of_parse (he : parse cs = .ok e) (hlooks : looksLikeFormula cs = true) :
    convert cs l p = convertExpr (.ofLayout l p) e p := by
  rw [convert, Formula.isBlankFormula_of_parse he, hlooks, he]
  rfl

theorem convertsEverywhere_iff : convertsEverywhere e = true ↔ ∃ f, convertExpr .unbounded e Surroundings.unbounded.home = .ok f := by
  rw [convertsEverywhere]
  cases convertExpr .unbounded e Surroundings.unbounded.home <;> simp [Except.isOk, Except.toBool]

theorem canConvert_iff_of_parse (he : parse cs = .ok e) :
    canConvert cs = true ↔ looksLikeFormula cs = true ∧ ∃ f, convertExpr .unbounded e Surroundings.unbounded.home = .ok f := by
  simp [canConvert, Formula.isBlankFormula_of_parse he, he, Except.toOption, convertsEverywhere_iff]

/-- The conversion of a formula with a cell in every column, to any column that exists. -/
theorem passes_of_canConvert (h : canConvert cs = true) (hblank : isBlankFormula cs = false)
    (hrows : ∀ r ∈ namedReferences cs, l.contains r = true) (hp : l.firstColumn + p ≤ lastColumn) :
    ∃ e, parse cs = .ok e ∧ Passes ((Surroundings.ofLayout l p).Overruns e) (convert cs l p) := by
  cases he : parse cs with
  | error fault => simp [canConvert, hblank, he, Except.toOption] at h
  | ok e =>
    obtain ⟨hlooks, f, hf⟩ := (canConvert_iff_of_parse he).mp h
    rw [convert_of_parse he hlooks]
    have hhosts : Hosts (.ofLayout l p) e p Surroundings.unbounded.home := by
      refine ⟨fun r hr => hrows r (Formula.mem_namedReferences_of_mem_references he hr), fun _ => ⟨?_, ?_⟩⟩
      · exact Nat.le_trans (Nat.le_trans (Nat.le_add_left _ _) hp) (by decide)
      · rintro n ⟨⟩
        exact hp
    exact ⟨e, rfl, (converts_of_convertExpr (Formula.applied_of_parse he) hf).passes hhosts⟩

theorem canConvert_of_convert (hunshifted : Unshifted cs) (h : convert cs l p = .ok f) : canConvert cs = true := by
  cases hblank : isBlankFormula cs with
  | true => simp [canConvert, hblank]
  | false =>
    unfold convert at h
    rw [hblank, if_neg Bool.false_ne_true] at h
    split at h
    · cases h
    · next hlooks =>
      split at h
      · cases h
      · next e he =>
        have hhosts : Hosts .unbounded e Surroundings.unbounded.home p :=
          ⟨fun _ _ => rfl, fun hshift => absurd hshift (hunshifted e he)⟩
        refine (canConvert_iff_of_parse he).mpr ⟨by simpa using hlooks, ?_⟩
        exact ((converts_of_convertExpr (Formula.applied_of_parse he) h).passes hhosts).resolve_right
          fun ⟨⟨hlimit, _⟩, _⟩ => hlimit rfl

/-- A formula that has a cell in every column, by one conversion far to the right, is converted in every
    column that exists on every sheet with rows for its references, unless a shift leads past the last
    column. Without shifts, a formula that has not fails everywhere. -/
theorem convert_of_canConvert (cs : List Char) :
    (canConvert cs = true → ∀ (l : Layout) (p : Nat) (home : String),
      (∀ r ∈ namedReferences cs, l.contains r = true) → l.firstColumn + p ≤ lastColumn →
        (OnlyDelays cs → ∃ text, (convert cs l p).map (·.content home) = .ok text) ∧
        ∀ fault, (convert cs l p).map (·.content home) = .error fault → fault = .unconvertible .pastLastColumn) ∧
      (canConvert cs = false → Unshifted cs → ∀ (l : Layout) (p : Nat) (home : String),
        ∃ fault, (convert cs l p).map (·.content home) = .error fault) := by
  refine ⟨fun h l p home hrows hp => ?_, fun h hunshifted l p home => ?_⟩
  · cases hblank : isBlankFormula cs with
    | true => simp [convert, hblank, Except.map]
    | false =>
      obtain ⟨e, he, ⟨f, hf⟩ | ⟨⟨-, o, ho, k, hk, hwhole⟩, hf⟩⟩ := passes_of_canConvert h hblank hrows hp
      · simp [hf, Except.map]
      · rw [hf]
        refine ⟨fun hdelays => ?_, ?_⟩
        · exact absurd (hdelays e he o ho k hwhole) (Int.not_le.mpr hk)
        · rintro fault ⟨⟩
          rfl
  · cases hf : convert cs l p with
    | error fault => exact ⟨fault, rfl⟩
    | ok f =>
      rw [canConvert_of_convert hunshifted hf] at h
      cases h

theorem canConvert_increased : canConvert "1+SHIFT(R4,1)".toList = true := by
  have hlooks : looksLikeFormula "1+SHIFT(R4,1)".toList = true := by with_unfolding_all rfl
  have hnumber : numberFormula literalOne = .ok (.number literalOne) := if_pos (by decide)
  have hwhole : (Expr.number literalOne).asNumber?.bind Decimal.whole? = some 1 := whole?_one
  have hlanding : Surroundings.unbounded.landing Surroundings.unbounded.home (saturate 1) = .on 1048575 := rfl
  have hshift (position : Nat) : ∃ f, convertExpr .unbounded (.reference (.calculation 4)) position = .ok f := by
    rw [convertExpr]
    exact ⟨_, rfl⟩
  obtain ⟨f, hf⟩ := hshift 1048575
  refine (canConvert_iff_of_parse parse_increased).mpr ⟨hlooks, .binary .add (.number literalOne) f, ?_⟩
  rw [increased, convertExpr, convertExpr, hnumber, convertExpr_shifts (.shift hwhole), convertShifted, hlanding]
  dsimp only
  rw [hf]
  rfl

theorem parse_byYear : parse "CUMSUM_Y(R4)".toList = .ok (.call .cumsumByYear [.reference (.calculation 4)]) := by
  cbv

theorem convert_of_canConvert_quarter :
    let cs := "1+SHIFT(R4,1)".toList
    let byYear := "CUMSUM_Y(R4)".toList
    canConvert cs = true ∧ (∀ r ∈ namedReferences cs, inputs.contains r = true) ∧
      inputs.firstColumn + 2 ≤ lastColumn ∧ OnlyDelays cs ∧
      (∃ text, (convert cs inputs 2).map (·.content "Main") = .ok text) ∧
      canConvert byYear = false ∧ Unshifted byYear ∧
      ∃ fault, (convert byYear inputs 2).map (·.content "Main") = .error fault := by
  have hrows : ∀ r ∈ namedReferences "1+SHIFT(R4,1)".toList, inputs.contains r = true := by
    intro r hr
    rw [Formula.mem_namedReferences, ← Formula.references_eq_occurrences parse_increased] at hr
    obtain rfl := List.mem_singleton.mp hr
    rw [Layout.contains, get?_inputs]
    rfl
  have hbyYear : canConvert "CUMSUM_Y(R4)".toList = false := by
    refine Bool.eq_false_iff.mpr fun h => ?_
    obtain ⟨-, f, hf⟩ := (canConvert_iff_of_parse parse_byYear).mp h
    rw [convertExpr] at hf
    cases hf
  have hunshifted : Unshifted "CUMSUM_Y(R4)".toList := by
    rintro e he ⟨f, hf, hshift⟩
    cases parse_byYear.symm.trans he
    obtain rfl : f = .cumsumByYear := by simpa [Expr.functions, Expr.functions.functionsOfAll] using hf
    cases hshift
  exact ⟨canConvert_increased, hrows, by decide, onlyDelays_increased,
    ((convert_of_canConvert _).1 canConvert_increased inputs 2 "Main" hrows (by decide)).1 onlyDelays_increased,
    hbyYear, hunshifted, (convert_of_canConvert _).2 hbyYear hunshifted inputs 2 "Main"⟩

end Sheet

end MonthlyModel
