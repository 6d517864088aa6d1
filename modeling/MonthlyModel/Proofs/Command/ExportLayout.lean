import MonthlyModel.Proofs.Command.Loading
import MonthlyModel.Proofs.Model.Consistency
import MonthlyModel.Proofs.Model.Memoization
import MonthlyModel.Proofs.Model.Schedule
import MonthlyModel.Proofs.Reference
import MonthlyModel.Proofs.Sheet.CellValue
import MonthlyModel.Proofs.Sheet.Failure
import MonthlyModel.Proofs.Sheet.Layout

/-! The layout of an export.

It has rows for all bound series and all calculations. A formula without an error reads nothing else: where
it names a time constant, this is bound, too. A series may be bound under the name of a calculation; then the
formula reads the calculation, and the name leads to the row of the calculation. -/

namespace MonthlyModel

open Formula (evaluateText isBlankFormula namedReferences parse)

theorem TimeConstant.name_of_ofName? {name : String} {k : TimeConstant} (h : ofName? name = some k) : k.name = name :=
  beq_iff_eq.mp (List.find?_some (p := fun k : TimeConstant => k.name == name) h)

namespace Model

variable {m : Model} {r : Reference} {s : Series Float} {x : CalculationId}

theorem recomputeAll_settled {allowed : Operation → Prop} (h : Reached allowed m) (x : CalculationId) :
    m.recomputeAll.1.Settled x := by
  obtain ⟨past, hs⟩ := h.sound
  intro e he
  have hcontains : m.contains x = true := (recomputeAll_sameFormulas m).contains ▸ contains_iff.mpr ⟨e, he⟩
  have hpending : x ∈ m.pending.insertMany m.ids := hs.toCoherent.mem_all.mpr hcontains
  exact (run_settled (hs.withPending hs.toCoherent.withAll) false nofun).1 x hpending e he

/-- A calculation without an error has the value of its formula. -/
theorem Settled.agrees {e : Entry} (h : m.Settled x) (he : m.entry? x = some e) (hok : e.result.error = none) :
    Agrees e.result (evaluateText m.context e.calculation.formula.toList) := by
  obtain ⟨hcyclic, hacyclic⟩ := h e he
  refine hacyclic fun hcycle => ?_
  obtain ⟨cycle, hresult⟩ := hcyclic hcycle
  rw [hresult] at hok
  cases hok

/-! ### What formulas read -/

theorem mem_references_iff : r ∈ m.calculations.map (·.reference) ↔ ∃ e ∈ m.entries, e.calculation.reference = r := by
  simp [calculations]

theorem nodup_references (m : Model) : (m.calculations.map (·.reference)).Nodup := by
  have hreferences : m.calculations.map (·.reference) = m.ids.map Reference.calculation := by
    simp [calculations, ids, Entry.id, Calculation.reference]
  rw [hreferences]
  refine List.Nodup.map (fun x y h => ?_) m.roster.nodup_ids
  cases h
  rfl

theorem results_of_reference {e : Entry} (he : e ∈ m.entries) :
    e.calculation.reference.calculation?.bind m.context.results = some e.result.values := by
  change (m.entry? e.id).map (·.result.values) = _
  rw [entry?_of_mem he, Option.map_some]

theorem resolve_reference {e : Entry} (hm : m.Fitting) (he : e ∈ m.entries) :
    m.context.resolve e.calculation.reference = .ok e.result.values := by
  refine Formula.Context.resolve_eq_ok_iff.mpr ⟨?_, hm.results (entry?_of_mem he)⟩
  rw [Formula.Context.bound?, results_of_reference he, Option.some_or, Option.some_or]

theorem exists_resolve_timeConstant (hm : m.Fitting) (hb : m.BindsConstants) (k : TimeConstant) :
    ∃ s, m.context.resolve (.timeConstant k.name) = .ok s := by
  obtain ⟨s, hs⟩ := Option.isSome_iff_exists.mp (hb k)
  refine ⟨s, Formula.Context.resolve_eq_ok_iff.mpr ⟨?_, (SeriesMap.length_of_get? hs).trans hm.periods⟩⟩
  have hbound : m.context.bound? (.timeConstant k.name) = some s := hs
  rw [hbound, Option.some_or]

/-- What a formula reads is the result of a calculation or, if there is none under this name, a bound series,
    where all time constants are bound. -/
theorem resolve_cases (hb : m.BindsConstants) {word : List Char} (hr : Reference.ofChars? word = some r)
    (hs : m.context.resolve r = .ok s) :
    (∃ e ∈ m.entries, e.calculation.reference = r ∧ e.result.values = s) ∨
      r ∉ m.calculations.map (·.reference) ∧ m.series.get? r = some s := by
  have hread := (Formula.Context.resolve_eq_ok_iff.mp hs).1
  have hbound : m.context.bound? r = (r.calculation?.bind m.context.results).or (m.series.get? r) := rfl
  cases hresult : r.calculation?.bind m.context.results with
  | some xs =>
    rw [hbound, hresult, Option.some_or, Option.some_or] at hread
    obtain ⟨x, hx, hxs⟩ := Option.bind_eq_some_iff.mp hresult
    obtain ⟨e, he, rfl⟩ := Option.map_eq_some_iff.mp hxs
    refine .inl ⟨e, mem_of_found he, ?_, Option.some.inj hread⟩
    rw [Reference.eq_calculation_of_ofChars? hr hx, ← id_of_found he]
    rfl
  | none =>
    rw [hbound, hresult, Option.none_or] at hread
    refine .inr ⟨fun hmem => ?_, ?_⟩
    · obtain ⟨e, he, rfl⟩ := mem_references_iff.mp hmem
      cases hresult.symm.trans (results_of_reference he)
    · cases hget : m.series.get? r with
      | some xs => rwa [hget, Option.some_or] at hread
      | none =>
        -- Only a time constant could be read without a binding.
        rw [hget, Option.none_or, Formula.Context.constant?] at hread
        split at hread
        · next hfamily =>
          obtain ⟨name, rfl⟩ := Reference.exists_timeConstant_of_ofChars? hr hfamily
          obtain ⟨k, hk, -⟩ := Option.map_eq_some_iff.mp hread
          have hcontains := hb k
          rw [TimeConstant.name_of_ofName? hk, SeriesMap.contains, hget] at hcontains
          cases hcontains
        · cases hread

end Model

namespace Command

open Sheet (Layout LayoutBuilder CellRow convert)

variable {m : Model} {r : Reference} {s : Series Float} {sheet inputSheet : String} {i : Nat}

/-! ### Rows -/

theorem exportLayout_eq (m : Model) (sheet inputSheet : String) : exportLayout m sheet inputSheet =
    ((LayoutBuilder.empty.placeAll m.series.keys inputSheet).placeAll (m.calculations.map (·.reference)) sheet).layout := by
  rw [LayoutBuilder.placeAll, List.foldl_map]
  rfl

/-- The row of the first calculation: there is a heading in front, and the bound series if they stand on the
    same sheet. -/
def firstRow (m : Model) (sheet inputSheet : String) : Nat :=
  if inputSheet = sheet then 2 + m.series.keys.length else 2

theorem get?_exportLayout_calculation {c : Calculation} (h : m.calculations[i]? = some c) :
    (exportLayout m sheet inputSheet).get? c.reference = some ⟨sheet, firstRow m sheet inputSheet + i⟩ := by
  have hi : (m.calculations.map (·.reference))[i]? = some c.reference := by rw [List.getElem?_map, h]; rfl
  rw [exportLayout_eq, LayoutBuilder.get?_placeAll _ _ m.nodup_references hi, LayoutBuilder.freeRow_placeAll]
  rfl

theorem get?_exportLayout_input (h : m.series.keys[i]? = some r) (hfree : r ∉ m.calculations.map (·.reference)) :
    (exportLayout m sheet inputSheet).get? r = some ⟨inputSheet, 2 + i⟩ := by
  rw [exportLayout_eq, LayoutBuilder.get?_placeAll_of_notMem _ _ hfree,
    LayoutBuilder.get?_placeAll _ _ (m.series.nodup_keys) h]
  rfl

theorem apart_exportLayout {r' : Reference} {row : CellRow} (h : (exportLayout m sheet inputSheet).get? r = some row)
    (h' : (exportLayout m sheet inputSheet).get? r' = some row) : r = r' := by
  rw [exportLayout_eq] at h h'
  exact ((LayoutBuilder.Apart.empty.placeAll m.series.keys inputSheet).placeAll _ sheet).apart h h'

/-- The row of the series that a reference stands for: the row of the calculation, or of the bound series. -/
inductive RowOf (m : Model) (sheet inputSheet : String) (r : Reference) (s : Series Float) : CellRow → Prop where
  | calculation {i : Nat} {e : Entry} (he : m.entries[i]? = some e) (hr : e.calculation.reference = r)
    (hs : e.result.values = s) : RowOf m sheet inputSheet r s ⟨sheet, firstRow m sheet inputSheet + i⟩
  | input {i : Nat} (hfree : r ∉ m.calculations.map (·.reference)) (hr : m.series.keys[i]? = some r)
    (hs : m.series.get? r = some s) : RowOf m sheet inputSheet r s ⟨inputSheet, 2 + i⟩

theorem exists_rowOf (hb : m.BindsConstants) {word : List Char} (hr : Reference.ofChars? word = some r)
    (hs : m.context.resolve r = .ok s) (sheet inputSheet : String) :
    ∃ row, (exportLayout m sheet inputSheet).get? r = some row ∧ RowOf m sheet inputSheet r s row := by
  rcases Model.resolve_cases hb hr hs with ⟨e, he, hr, hs⟩ | ⟨hfree, hget⟩
  · obtain ⟨i, hi⟩ := List.getElem?_of_mem he
    have hc : m.calculations[i]? = some e.calculation := by rw [Model.calculations, List.getElem?_map, hi]; rfl
    exact ⟨_, hr ▸ get?_exportLayout_calculation hc, .calculation hi hr hs⟩
  · obtain ⟨i, hi⟩ := List.getElem?_of_mem (SeriesMap.mem_keys_of_get? hget)
    exact ⟨_, get?_exportLayout_input hi hfree, .input hfree hi hget⟩

/-! ### Formulas without an error -/

theorem namedReferences_of_isBlankFormula {cs : List Char} (h : isBlankFormula cs = true) : r ∉ namedReferences cs := by
  have htrim : Text.trimFront (Formula.body cs) = [] := List.dropWhile_eq_nil_iff.mpr (List.all_eq_true.mp h)
  rw [Formula.mem_namedReferences, ← Formula.occurrences_body, Formula.occurrences, Formula.tokens,
    Formula.lexemes_eq_nil htrim]
  exact List.not_mem_nil

theorem blank_or_supports {c : Formula.Context Float} {cs : List Char} (hok : (evaluateText c cs).error = none) :
    isBlankFormula cs = true ∨ ∃ e, parse cs = .ok e ∧ c.Supports e := by
  cases hblank : isBlankFormula cs with
  | true => exact .inl rfl
  | false =>
    right
    cases he : parse cs with
    | ok e => exact ⟨e, rfl, (Sheet.values_of_error_eq_none hblank he hok).1⟩
    | error error =>
      rw [evaluateText, hblank, he] at hok
      cases hok

theorem exists_resolve {cs : List Char} (hok : (evaluateText m.context cs).error = none) (hr : r ∈ namedReferences cs) :
    ∃ s, m.context.resolve r = .ok s := by
  rcases blank_or_supports hok with hblank | ⟨e, he, hsupports⟩
  · exact absurd hr (namedReferences_of_isBlankFormula hblank)
  · rw [Formula.mem_namedReferences, ← Formula.references_eq_occurrences he] at hr
    exact Formula.Context.reads_iff.mp (hsupports.reads r hr)

/-- A conversion misses no row if there are rows for all references. -/
theorem convert_ne_noRow {cs : List Char} {l : Layout} (hok : (evaluateText m.context cs).error = none)
    (hrows : ∀ r ∈ namedReferences cs, l.get? r ≠ none) (p : Nat) (r : Reference) : convert cs l p ≠ .error (.noRow r) := by
  intro hconvert
  unfold convert at hconvert
  split at hconvert
  · cases hconvert
  · next hblank =>
    split at hconvert
    · cases hconvert
    · rcases blank_or_supports hok with hblank' | ⟨e, he, -⟩
      · exact hblank hblank'
      · rw [he] at hconvert
        rcases Sheet.failsAt_convertExpr (List.Subset.refl _) p _ hconvert with ⟨o, ho⟩ | ⟨r', hr', hrow, -⟩
        · cases ho
        · exact hrows r' (Formula.mem_namedReferences_of_mem_references he hr') hrow

/-- The layout of an export covers every formula without an error, for all names of sheets. The conversion
    of the formula for a month misses no row, and each reference has a row that no other reference has, the
    row of the series that the evaluation reads for it. -/
theorem exportLayout_covers {fs : Files} {path : String} {inputs : Option String} {fiscalEnd : Option Nat} {e : Entry}
    (hload : loaded fs path inputs = .ok (m, fiscalEnd)) (he : e ∈ m.entries) (hok : e.result.error = none)
    (sheet inputSheet : String) :
    let l := exportLayout m sheet inputSheet
    let cs := e.calculation.formula.toList
    Agrees e.result (evaluateText m.context cs) ∧
      (∀ p r, convert cs l p ≠ .error (.noRow r)) ∧
      ∀ r ∈ namedReferences cs, ∃ s row, m.context.resolve r = .ok s ∧ l.get? r = some row ∧
        RowOf m sheet inputSheet r s row ∧ ∀ r', l.get? r' = some row → r' = r := by
  intro l cs
  obtain ⟨before, hbefore, rfl⟩ := reached_of_loaded hload
  have hb : before.recomputeAll.1.BindsConstants := hbefore.bindsConstants.recomputeAll
  have hagrees := (Model.recomputeAll_settled hbefore e.id).agrees (Model.entry?_of_mem he) hok
  -- A result without an error agrees with the value of its formula, which then has none either: all that it
  -- names resolves.
  have herror : (evaluateText before.recomputeAll.1.context cs).error = none :=
    (error_of_agrees hagrees).symm.trans hok
  have hcover : ∀ r ∈ namedReferences cs, ∃ s row, before.recomputeAll.1.context.resolve r = .ok s ∧ l.get? r = some row ∧
      RowOf before.recomputeAll.1 sheet inputSheet r s row := by
    intro r hr
    obtain ⟨word, hword⟩ := Formula.exists_of_mem_occurrences (Formula.mem_namedReferences.mp hr)
    obtain ⟨s, hs⟩ := exists_resolve herror hr
    obtain ⟨row, hrow, hof⟩ := exists_rowOf hb hword hs sheet inputSheet
    exact ⟨s, row, hs, hrow, hof⟩
  refine ⟨hagrees, convert_ne_noRow herror fun r hr => ?_, fun r hr => ?_⟩
  · obtain ⟨s, row, -, hrow, -⟩ := hcover r hr
    rw [hrow]
    exact Option.some_ne_none row
  · obtain ⟨s, row, hs, hrow, hof⟩ := hcover r hr
    exact ⟨s, row, hs, hrow, hof, fun r' hr' => apart_exportLayout hr' hrow⟩

/-! ### A file with two calculations -/

def daysText : String :=
  "[[\"2025-01\",3],{},[[1,null,null,\"Days\",\"T.DiM\"],[2,null,null,\"Total\",\"R1 + T.DiM\"]]]"

def daysFile : ModelFile :=
  ⟨⟨"2025-01", 3, none⟩, [], [.ofFormula 1 "Days" "T.DiM", .ofFormula 2 "Total" "R1 + T.DiM"]⟩

def daysFiles : Files :=
  [(pathParts "model.json", daysText.toUTF8.data.toList)]

def days : Model :=
  ((Model.new (.consecutive (.ofYearMonth 2025 1) 3) .standard).after (.addCalculation (.ofFormula 1 "Days" "T.DiM"))).after
    (.addCalculation (.ofFormula 2 "Total" "R1 + T.DiM"))

theorem build_days : daysFile.build = .ok days := by
  have htimeline : daysFile.timeline.build = .ok (.consecutive (.ofYearMonth 2025 1) 3) := by cbv
  have hdays : ¬ (Model.new (.consecutive (.ofYearMonth 2025 1) 3) .standard).contains 1 = true := Bool.false_ne_true
  have htotal : ¬ ((Model.new (.consecutive (.ofYearMonth 2025 1) 3) .standard).after
      (.addCalculation (.ofFormula 1 "Days" "T.DiM"))).contains 2 = true := Bool.false_ne_true
  refine bind_eq_ok_iff.mpr ⟨_, htimeline, bind_eq_ok_iff.mpr ⟨_, rfl, ?_⟩⟩
  refine bind_eq_ok_iff.mpr ⟨_, Model.addCalculation_eq_after hdays, ?_⟩
  exact bind_eq_ok_iff.mpr ⟨_, Model.addCalculation_eq_after htotal, rfl⟩

theorem loaded_days : loaded daysFiles "model.json" none = .ok (days.recomputeAll.1, none) := by
  have hparse : ModelFile.parse? daysText = some daysFile := by cbv
  have hfile : readModelFile "model.json" (daysFiles.read "model.json") = .ok daysFile := by
    rw [daysFiles, read_singleton]
    exact readModelFile_text hparse
  have hbuild : buildModel daysFile = .ok days := mapError_eq_ok_iff.mpr build_days
  refine bind_eq_ok_iff.mpr ⟨_, hfile, bind_eq_ok_iff.mpr ⟨_, hbuild, bind_eq_ok_iff.mpr ⟨days, ?_, ?_⟩⟩⟩
  · exact bound.eq_1 _ _
  · exact pure_eq_ok_iff.mpr rfl

theorem reached_days : Model.Reached Operation.Adds days :=
  ((Model.Reached.new _ _).after trivial).after trivial

theorem entries_days : days.entries =
    [Entry.new 3 (.ofFormula 1 "Days" "T.DiM"), Entry.new 3 (.ofFormula 2 "Total" "R1 + T.DiM")] :=
  rfl

/-- Only the total reads a calculation, and it reads the other one. -/
theorem reads_days {d p : CalculationId} (h : days.Reads d p) : d = 2 ∧ p = 1 := by
  obtain ⟨⟨e, he, hp⟩, -⟩ := h
  have hdays : Formula.namedCalculations "T.DiM".toList = [] := by cbv
  have htotal : Formula.namedCalculations "R1 + T.DiM".toList = [1] := by cbv
  have hmem := Model.mem_of_found he
  rw [entries_days] at hmem
  rcases List.mem_pair.mp hmem with rfl | rfl
  · rw [show (Entry.new 3 (.ofFormula 1 "Days" "T.DiM")).calculation.formula = "T.DiM" from rfl, hdays] at hp
    cases hp
  · rw [show (Entry.new 3 (.ofFormula 2 "Total" "R1 + T.DiM")).calculation.formula = "R1 + T.DiM" from rfl, htotal] at hp
    exact ⟨(Model.id_of_found he).symm, List.mem_singleton.mp hp⟩

theorem acyclic_days : ¬ Relation.TransGen days.Reads 2 2 := by
  intro h
  obtain ⟨k, hk, hrest⟩ := Relation.TransGen.head'_iff.mp h
  obtain ⟨-, rfl⟩ := reads_days hk
  rcases Relation.ReflTransGen.cases_head hrest with heq | ⟨k, hk, -⟩
  · cases heq
  · cases (reads_days hk).1

theorem evaluate_days {c : Formula.Context Float} {xs ys : Series Float} (hx : c.resolve (.calculation 1) = .ok xs)
    (hy : c.resolve (.timeConstant "DiM") = .ok ys) : (Formula.evaluateText c "R1 + T.DiM".toList).error = none := by
  have hparse : Formula.parse "R1 + T.DiM".toList =
      .ok (.binary .add (.reference (.calculation 1)) (.reference (.timeConstant "DiM"))) := by cbv
  rw [Formula.evaluateText_of_parse hparse, Formula.evaluate, Formula.evaluate, Formula.evaluate, hx, hy]
  rfl

/-- One reference is read as a calculation and one as a bound series, on one sheet with everything else. -/
theorem exportLayout_covers_days : ∃ e,
    let m := days.recomputeAll.1
    let l := exportLayout m "Model" "Model"
    let cs := e.calculation.formula.toList
    loaded daysFiles "model.json" none = .ok (m, none) ∧ e ∈ m.entries ∧ e.result.error = none ∧
      cs = "R1 + T.DiM".toList ∧ Agrees e.result (evaluateText m.context cs) ∧
      (∀ p r, convert cs l p ≠ .error (.noRow r)) ∧
      ∀ r ∈ namedReferences cs, ∃ s row, m.context.resolve r = .ok s ∧ l.get? r = some row ∧
        RowOf m "Model" "Model" r s row ∧ ∀ r', l.get? r' = some row → r' = r := by
  have hf := Model.recomputeAll_sameFormulas days
  obtain ⟨first, hfirst, -⟩ := hf.symm.exists_entry (x := 1) rfl
  obtain ⟨e, he, hsource⟩ := hf.symm.exists_entry (x := 2) rfl
  have hformula : e.calculation.formula = "R1 + T.DiM" := congrArg Prod.fst hsource
  have hfitting : Model.Fitting days.recomputeAll.1 := (reached_days.fitting.withPending _).run false
  have hconstants : days.recomputeAll.1.BindsConstants := reached_days.bindsConstants.recomputeAll
  have hreference : first.calculation.reference = .calculation 1 :=
    congrArg Reference.calculation (Model.id_of_found hfirst)
  have hcalculation : days.recomputeAll.1.context.resolve (.calculation 1) = .ok first.result.values :=
    hreference ▸ Model.resolve_reference hfitting (Model.mem_of_found hfirst)
  obtain ⟨ys, hconstant⟩ := Model.exists_resolve_timeConstant hfitting hconstants .daysInMonth
  have hagrees := (Model.recomputeAll_settled reached_days 2 e he).2 (hf.reads ▸ acyclic_days)
  have hok : e.result.error = none := by
    rw [error_of_agrees hagrees, hformula]
    exact evaluate_days hcalculation hconstant
  have hmem : e ∈ days.recomputeAll.1.entries := Model.mem_of_found he
  exact ⟨e, loaded_days, hmem, hok, by rw [hformula], exportLayout_covers loaded_days hmem hok "Model" "Model"⟩

end Command

end MonthlyModel
