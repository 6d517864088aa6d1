import MonthlyModel.Proofs.Formula.Pointwise
import MonthlyModel.Proofs.SeriesMap

/-! What the names in a formula stand for.

The references of a formula are found twice: its text is searched for them without being read, and they
are the leaves of the expression that it is read as. Both ways find the same ones. So the calculations
that a text names are those whose results its evaluation consults. -/

namespace MonthlyModel.Formula

variable {α : Type} {c : Context α} {cs : List Char} {e : Expr} {id : CalculationId}

/-- A context in which a calculation has another result, or none. -/
def Context.withResult (c : Context α) (id : CalculationId) (result : Option (Series α)) : Context α :=
  { c with results := fun k => if k = id then result else c.results k }

/-- Evaluating a formula consults the result of a calculation: with another result of it, and all else
    as it is, the formula evaluates to something else. -/
def Context.Consults [Arithmetic α] (c : Context α) (cs : List Char) (id : CalculationId) : Prop :=
  ∃ result, evaluateText (c.withResult id result) cs ≠ evaluateText c cs

theorem results_withResult {result : Option (Series α)} {k : CalculationId} :
    (c.withResult id result).results k = if k = id then result else c.results k := rfl

theorem bound?_withResult_of_ne {r : Reference} {result : Option (Series α)} (h : r.calculation? ≠ some id) :
    (c.withResult id result).bound? r = c.bound? r := by
  unfold Context.bound?
  cases hk : r.calculation? with
  | none => rfl
  | some k =>
    have hne : k ≠ id := fun hid => h (hk.trans (congrArg some hid))
    rw [Option.bind_some, Option.bind_some, results_withResult, if_neg hne]
    rfl

theorem bound?_withResult_of_eq {r : Reference} {s : Series α} (h : r.calculation? = some id) :
    (c.withResult id (some s)).bound? r = some s := by
  rw [Context.bound?, h, Option.bind_some, results_withResult, if_pos rfl, Option.some_or]

variable [Arithmetic α]

theorem Context.Consults.mem (h : c.Consults cs id) : id ∈ namedCalculations cs := by
  obtain ⟨result, hne⟩ := h
  by_contra hid
  have ht : (c.withResult id result).timeline = c.timeline := rfl
  refine hne (evaluateText_congr ht fun r hr => bound?_withResult_of_ne fun hk => hid ?_)
  exact mem_namedCalculations.mpr ⟨r, hr, hk⟩

/-- A series of the wrong length for a result is noticed if the result is consulted. -/
theorem consults_of_evaluate (h : parse cs = .ok e) {s : Series α} (hs : evaluate c e = .ok s)
    (hid : id ∈ namedCalculations cs) : c.Consults cs id := by
  obtain ⟨r, hr, hk⟩ := mem_namedCalculations.mp hid
  rw [mem_namedReferences, ← references_eq_occurrences h] at hr
  refine ⟨some (List.replicate (c.periods + 1) 0), fun heq => ?_⟩
  rw [evaluateText_of_parse h, evaluateText_of_parse h, hs] at heq
  cases hs' : evaluate (c.withResult id (some (List.replicate (c.periods + 1) 0))) e with
  | error error =>
    rw [hs'] at heq
    cases congrArg Evaluation.error heq
  | ok s' =>
    obtain ⟨t, ht, hlength⟩ := (supports_of_evaluate (applied_of_parse h) hs').reads r hr
    rw [bound?_withResult_of_eq hk, Option.some_or] at ht
    rw [← Option.some.inj ht, List.length_replicate] at hlength
    exact absurd hlength (Nat.succ_ne_self _)

/-- A context without months that binds some references. -/
def Context.vacant (rs : List Reference) : Context α where
  timeline := .empty
  series := (rs.map fun r => (r, [])).foldl (fun m (r, s) => m.insertNew r s) (.empty 0)
  results _ := none

theorem reads_vacant {rs : List Reference} {r : Reference} (hr : r ∈ rs) : (Context.vacant rs : Context α).Reads r := by
  have hlookup : (rs.map fun r => (r, ([] : Series α))).lookup r = some [] := by
    induction rs with
    | nil => exact absurd hr List.not_mem_nil
    | cons r' rs ih =>
      rw [List.map_cons, List.lookup_cons]
      by_cases h : r = r'
      · simp [h]
      · have hb : (r == r') = false := beq_eq_false_iff_ne.mpr h
        rw [hb]
        exact ih ((List.mem_cons.mp hr).resolve_left h)
  have hget : (Context.vacant rs : Context α).series.get? r = some [] := by
    rw [Context.vacant, SeriesMap.get?_foldl_insertNew (by simp [SeriesMap.empty]), SeriesMap.get?_empty, hlookup,
      Option.none_or]
  have hbound : (Context.vacant rs : Context α).bound? r = some [] := by
    rw [Context.bound?, hget]
    cases r.calculation? <;> rfl
  exact ⟨[], by rw [hbound, Option.some_or], rfl⟩

theorem exists_evaluate (h : parse cs = .ok e) : ∃ (c : Context α) (s : Series α), evaluate c e = .ok s := by
  refine ⟨.vacant e.references, _, evaluate_of_supports (applied_of_parse h) ⟨fun r hr => reads_vacant hr, fun o _ => ?_⟩⟩
  exact ⟨0, fun i hi => absurd hi (Nat.not_lt_zero i)⟩

/-- The search of a text for references finds exactly those of the formula that it is read as, in their
    order and without repetition. The calculations among them are those whose results some evaluation of
    the formula consults, and every evaluation that succeeds consults all of them. -/
theorem namedReferences_of_parse (h : parse cs = .ok e) :
    ((namedReferences cs).Pairwise fun r s => compare r s = .lt) ∧
      (∀ r, r ∈ namedReferences cs ↔ r ∈ e.references) ∧
      (∀ id, id ∈ namedCalculations cs ↔ ∃ c : Context α, c.Consults cs id) ∧
      ∀ (c : Context α) s, evaluate c e = .ok s → ∀ id, id ∈ namedCalculations cs ↔ c.Consults cs id := by
  refine ⟨Std.TreeSet.ordered_toList, fun r => ?_, fun id => ⟨fun hid => ?_, fun ⟨c, hc⟩ => hc.mem⟩,
    fun c s hs id => ⟨consults_of_evaluate h hs, Context.Consults.mem⟩⟩
  · rw [mem_namedReferences, references_eq_occurrences h]
  · obtain ⟨c, s, hs⟩ := exists_evaluate (α := α) h
    exact ⟨c, consults_of_evaluate h hs hid⟩

/-- A formula with an equals sign in front, which names a calculation twice. -/
theorem namedReferences_of_parse_doubled :
    let e : Expr := .binary .add (.reference (.calculation 10)) (.binary .multiply (.reference (.calculation 2))
      (.reference (.calculation 10)))
    parse " = R10 + R2 * R10".toList = .ok e ∧
      ((namedReferences " = R10 + R2 * R10".toList).Pairwise fun r s => compare r s = .lt) ∧
      (∀ r, r ∈ namedReferences " = R10 + R2 * R10".toList ↔ r ∈ e.references) ∧
      (∀ id, id ∈ namedCalculations " = R10 + R2 * R10".toList ↔
        ∃ c : Context Float, c.Consults " = R10 + R2 * R10".toList id) ∧
      ∀ (c : Context Float) s, evaluate c e = .ok s →
        ∀ id, id ∈ namedCalculations " = R10 + R2 * R10".toList ↔ c.Consults " = R10 + R2 * R10".toList id := by
  have h : parse " = R10 + R2 * R10".toList = .ok (.binary .add (.reference (.calculation 10))
      (.binary .multiply (.reference (.calculation 2)) (.reference (.calculation 10)))) := by cbv
  exact ⟨h, namedReferences_of_parse h⟩

end MonthlyModel.Formula
