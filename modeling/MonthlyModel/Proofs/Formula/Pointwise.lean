import Mathlib
import MonthlyModel.Formula.Evaluation
import MonthlyModel.Proofs.Formula.Grammar
import MonthlyModel.Proofs.Formula.Readings
import MonthlyModel.Proofs.Formula.Series
import MonthlyModel.Proofs.Outcome

/-! The value of an expression in one month.

The evaluator computes whole series. This file gives each month a value of its own, by recursion on
the expression, and shows that the evaluator's series are the tables of these values: exactly when
all references can be read and all offsets of shifts are constant there is a series, and its value
in every month is the value of the expression there. -/

namespace MonthlyModel.Formula

variable {α : Type} [Arithmetic α]

/-! ### Values by month -/

/-- The time constant that a reference names. -/
def namedConstant? (r : Reference) : Option TimeConstant :=
  if r.family = .timeConstant then r.name.bind TimeConstant.ofName? else none

/-- The value of a reference in month `i`: in the result of the calculation that it names, else in the
    series that is bound to it, else of the time constant that it names. What stands for nothing has the
    value zero. -/
def Context.valueOf (c : Context α) (r : Reference) (i : Nat) : α :=
  match r.calculation?.bind c.results, c.series.get? r, namedConstant? r with
  | some s, _, _ => s.getD i 0
  | none, some s, _ => s.getD i 0
  | none, none, some k => (c.timeline.periods[i]?.map fun p => Arithmetic.ofNat (k.value p)).getD 0
  | none, none, none => 0

/-- The value of a function in month `i` for arguments that are functions of the month. -/
def Function.valueAt (t : Timeline) (f : Function) (arguments : List (Nat → α)) (i : Nat) : α :=
  let x := arguments.headD fun _ => 0
  match f with
  | .abs => Arithmetic.magnitude (x i)
  | .max => Arithmetic.largest (arguments.map (· i))
  | .min => Arithmetic.smallest (arguments.map (· i))
  | .count => foldMonths (fun n y => if Arithmetic.equal y 0 then n else n + 1) 0 x 0 i
  | .cumprod => foldMonths (· * ·) 1 x 0 i
  | .cumprodByYear => foldMonths (· * ·) 1 x (t.yearStart i) i
  | .cumsum => foldMonths (· + ·) 0 x 0 i
  | .cumsumByYear => foldMonths (· + ·) 0 x (t.yearStart i) i
  | .prevsum => if i = 0 then 0 else foldMonths (· + ·) 0 x 0 (i - 1)
  | .prevval => lag t.length x 1 i
  | .shift => lag t.length x ((Arithmetic.whole? (arguments.getD 1 (fun _ => 0) i)).getD 0) i

/-- The value of an operator between two values. A quotient by zero is zero; a comparison is one where it
    holds, and zero elsewhere. -/
def Operator.valueOf (o : Operator) (x y : α) : α :=
  match o with
  | .add => x + y
  | .subtract => x - y
  | .multiply => x * y
  | .divide => if Arithmetic.equal y 0 then 0 else Arithmetic.quotient x y
  | .power => Arithmetic.power x y
  | .equal => if Arithmetic.equal x y then 1 else 0
  | .less => if Arithmetic.less x y then 1 else 0
  | .atMost => if Arithmetic.atMost x y then 1 else 0
  | .greater => if Arithmetic.less y x then 1 else 0
  | .atLeast => if Arithmetic.atMost y x then 1 else 0

/-- The value of an expression in month `i`. What has no value in a formula that cannot be evaluated
    has any value here. -/
def valueAt (c : Context α) : Expr → Nat → α
  | .number x, _ => Arithmetic.literal x
  | .reference r, i => c.valueOf r i
  | .negate e, i => - valueAt c e i
  | .binary o l r, i => o.valueOf (valueAt c l i) (valueAt c r i)
  | .call f es, i => f.valueAt c.timeline (valuesOf c es) i
where
  /-- The values of several expressions. -/
  valuesOf (c : Context α) : List Expr → List (Nat → α)
    | [] => []
    | e :: es => valueAt c e :: valuesOf c es

/-- The offsets of the shifts in an expression. -/
def Expr.offsets : Expr → List Expr
  | .number _ => []
  | .reference _ => []
  | .negate e => e.offsets
  | .binary _ l r => l.offsets ++ r.offsets
  | .call f es => (if f = .shift then (es.drop 1).take 1 else []) ++ offsetsOfAll es
where
  /-- The offsets of the shifts in several expressions. -/
  offsetsOfAll : List Expr → List Expr
    | [] => []
    | e :: es => e.offsets ++ offsetsOfAll es

namespace Context

/-- A reference can be read: it stands for a series that has a value for each month. -/
def Reads (c : Context α) (r : Reference) : Prop :=
  ∃ s, (c.bound? r).or (c.constant? r) = some s ∧ s.length = c.periods

/-- An expression is the same whole number in all months. -/
def Steady (c : Context α) (e : Expr) : Prop :=
  ∃ k : Int, ∀ i < c.periods, Arithmetic.whole? (valueAt c e i) = some k

/-- All that an expression needs to have a value: its references can be read, and the offsets of its
    shifts are constant whole numbers. -/
structure Supports (c : Context α) (e : Expr) : Prop where
  reads : ∀ r ∈ e.references, c.Reads r
  steady : ∀ o ∈ e.offsets, c.Steady o

theorem reads_iff {c : Context α} {r : Reference} : c.Reads r ↔ ∃ s, c.resolve r = .ok s := by
  simp only [Reads, resolve_eq_ok_iff]

end Context

/-! ### Operators and references -/

/-- The values of an operator are those that the evaluator computes. -/
theorem Operator.valueOf_eq (o : Operator) (x y : α) : o.valueOf x y = o.apply x y := by
  cases o <;> rfl

theorem valueAt_binary (c : Context α) (o : Operator) (l r : Expr) (i : Nat) :
    valueAt c (.binary o l r) i = o.apply (valueAt c l i) (valueAt c r i) := by
  rw [valueAt, Operator.valueOf_eq]

theorem Context.constant?_eq (c : Context α) (r : Reference) :
    c.constant? r = (namedConstant? r).map fun k => (c.timeline.constant k).map Arithmetic.ofNat := by
  unfold constant? namedConstant?
  split <;> rfl

/-- The value of a reference that can be read is the value of the series that it is resolved to. -/
theorem valueAt_reference {c : Context α} {r : Reference} {s : Series α} (h : c.resolve r = .ok s) (i : Nat) :
    valueAt c (.reference r) i = s.getD i 0 := by
  obtain ⟨hs, -⟩ := Context.resolve_eq_ok_iff.mp h
  rw [Context.bound?, Context.constant?_eq] at hs
  rw [valueAt, Context.valueOf]
  -- What comes first gives both the series and the value.
  cases hresult : r.calculation?.bind c.results with
  | some s' =>
    obtain rfl : s' = s := by simpa [hresult] using hs
    rfl
  | none =>
    cases hseries : c.series.get? r with
    | some s' =>
      obtain rfl : s' = s := by simpa [hresult, hseries] using hs
      rfl
    | none =>
      cases hconstant : namedConstant? r with
      | some k =>
        obtain rfl : (c.timeline.constant k).map Arithmetic.ofNat = s := by simpa [hresult, hseries, hconstant] using hs
        simp [Timeline.constant, Function.comp_def]
      | none => simp [hresult, hseries, hconstant] at hs

/-! ### Lists of expressions -/

theorem valuesOf_eq (c : Context α) (es : List Expr) : valueAt.valuesOf c es = es.map (valueAt c) := by
  induction es with
  | nil => rfl
  | cons e es ih => simp [valueAt.valuesOf, ih]

theorem offsetsOfAll_eq (es : List Expr) : Expr.offsets.offsetsOfAll es = es.flatMap Expr.offsets := by
  induction es with
  | nil => rfl
  | cons e es ih => simp [Expr.offsets.offsetsOfAll, ih]

theorem valueAt_call (c : Context α) (f : Function) (es : List Expr) :
    valueAt c (.call f es) = f.valueAt c.timeline (es.map (valueAt c)) := by
  funext i
  rw [valueAt, valuesOf_eq]

theorem offsets_call (f : Function) (es : List Expr) :
    (Expr.call f es).offsets = (if f = .shift then (es.drop 1).take 1 else []) ++ es.flatMap Expr.offsets := by
  rw [Expr.offsets, offsetsOfAll_eq]

theorem evaluateAll_of_forall {c : Context α} {es : List Expr} {s : Expr → Series α}
    (h : ∀ e ∈ es, evaluate c e = .ok (s e)) : evaluate.evaluateAll c es = .ok (es.map s) := by
  induction es with
  | nil => rfl
  | cons e es ih =>
    rw [evaluate.evaluateAll, h e List.mem_cons_self, ih fun e' he' => h e' (List.mem_cons_of_mem _ he')]
    rfl

theorem exists_of_evaluateAll {c : Context α} {es : List Expr} {ss : List (Series α)}
    (h : evaluate.evaluateAll c es = .ok ss) : ∀ e ∈ es, ∃ s, evaluate c e = .ok s := by
  induction es generalizing ss with
  | nil => exact fun _ he => absurd he List.not_mem_nil
  | cons e es ih =>
    obtain ⟨s, hs, h⟩ := bind_eq_ok_iff.mp h
    obtain ⟨ss', hss, -⟩ := bind_eq_ok_iff.mp h
    intro e' he'
    rcases List.mem_cons.mp he' with rfl | he'
    · exact ⟨s, hs⟩
    · exact ih hss e' he'

/-! ### Functions of tabulated arguments -/

omit [Arithmetic α] in
theorem columns_tabulate (n : Nat) (xs : List (Nat → α)) :
    columns n (xs.map (tabulate n)) = (List.range n).map fun i => xs.map (· i) := by
  induction xs with
  | nil => simp [columns, List.map_const']
  | cons x xs ih =>
    have hc : columns n ((x :: xs).map (tabulate n)) =
        List.zipWith List.cons (tabulate n x) (columns n (xs.map (tabulate n))) := rfl
    rw [hc, ih, tabulate, List.zipWith_map]
    simp [List.zipWith_self]

theorem constantOffset?_eq_some_iff {xs : Series α} {k : Int} :
    constantOffset? xs = some k ↔ xs ≠ [] ∧ ∀ x ∈ xs, Arithmetic.whole? x = some k := by
  cases xs with
  | nil => simp [constantOffset?]
  | cons x xs =>
    cases hx : Arithmetic.whole? x with
    | none => simp [constantOffset?, hx]
    | some k' =>
      simp only [constantOffset?, hx, Option.bind_eq_bind, Option.bind_some, List.all_eq_true, beq_iff_eq,
        Option.ite_none_right_eq_some, Option.some.injEq, ne_eq, reduceCtorEq, not_false_eq_true, true_and,
        List.forall_mem_cons]
      constructor
      · rintro ⟨h, rfl⟩
        exact ⟨rfl, h⟩
      · rintro ⟨rfl, h⟩
        exact ⟨h, rfl⟩

theorem shiftBy_tabulate {n : Nat} {x o : Nat → α} {k : Int} (h : ∀ i < n, Arithmetic.whole? (o i) = some k) :
    shiftBy (tabulate n x) (tabulate n o) =
      .ok (tabulate n fun i => lag n x ((Arithmetic.whole? (o i)).getD 0) i) := by
  cases n with
  | zero => rfl
  | succ n =>
    have hne : tabulate (n + 1) o ≠ [] := List.ne_nil_of_length_pos (by simp)
    rw [shiftBy, if_neg (by simpa using hne),
      constantOffset?_eq_some_iff.mpr ⟨hne, forall_mem_tabulate.mpr h⟩]
    simp only [shift_tabulate]
    exact congrArg _ (tabulate_congr fun i hi => by rw [h i hi, Option.getD_some])

theorem exists_of_shiftBy {n : Nat} {x o : Nat → α} {s : Series α}
    (h : shiftBy (tabulate n x) (tabulate n o) = .ok s) :
    ∃ k : Int, ∀ i < n, Arithmetic.whole? (o i) = some k := by
  unfold shiftBy at h
  split at h
  · next hn =>
    have hn : n = 0 := by simpa using congrArg List.length (List.isEmpty_iff.mp hn)
    exact ⟨0, fun i hi => absurd hi (hn ▸ Nat.not_lt_zero i)⟩
  · split at h
    · next k hk => exact ⟨k, forall_mem_tabulate.mp (constantOffset?_eq_some_iff.mp hk).2⟩
    · cases h

/-- What the arguments of a shift have to meet; other functions ask for nothing. -/
def Function.Accepts (n : Nat) (f : Function) (xs : List (Nat → α)) : Prop :=
  f = .shift → ∃ k : Int, ∀ i < n, Arithmetic.whole? (xs.getD 1 (fun _ => 0) i) = some k

theorem Function.apply_tabulate {t : Timeline} {f : Function} {xs : List (Nat → α)}
    (hf : f.takes xs.length = true) (h : f.Accepts t.length xs) :
    f.apply t (xs.map (tabulate t.length)) = .ok (tabulate t.length (f.valueAt t xs)) := by
  cases f with
  | max => exact congrArg Except.ok (by rw [columns_tabulate, List.map_map]; rfl)
  | min => exact congrArg Except.ok (by rw [columns_tabulate, List.map_map]; rfl)
  | shift =>
    obtain ⟨x, o, rfl⟩ := List.length_eq_two.mp (eq_of_takes hf rfl rfl)
    obtain ⟨k, hk⟩ := h rfl
    exact shiftBy_tabulate hk
  | abs =>
    obtain ⟨x, rfl⟩ := List.length_eq_one_iff.mp (eq_of_takes hf rfl rfl)
    simp [apply, valueAt, tabulate]
  | prevsum =>
    obtain ⟨x, rfl⟩ := List.length_eq_one_iff.mp (eq_of_takes hf rfl rfl)
    -- The sum of all months before: the first month has none, where the shift leaves zero.
    simp only [apply, List.map_cons, List.headD_cons, running_tabulate, shift_tabulate]
    refine congrArg _ (tabulate_congr fun i hi => ?_)
    simp only [lag, valueAt, List.headD_cons]
    by_cases h0 : i = 0
    · rw [if_neg (by omega), if_pos h0]
    · rw [if_pos (by omega), if_neg h0]
      congr 1
      omega
  | _ =>
    obtain ⟨x, rfl⟩ := List.length_eq_one_iff.mp (eq_of_takes hf rfl rfl)
    simp only [apply, List.map_cons, List.headD_cons, running_tabulate, runningByYear_tabulate, shift_tabulate]
    rfl

theorem Function.accepts_of_apply {t : Timeline} {f : Function} {xs : List (Nat → α)} {s : Series α}
    (hf : f.takes xs.length = true) (h : f.apply t (xs.map (tabulate t.length)) = .ok s) :
    f.Accepts t.length xs := by
  rintro rfl
  obtain ⟨x, o, rfl⟩ := List.length_eq_two.mp (eq_of_takes hf rfl rfl)
  exact exists_of_shiftBy h

/-! ### Evaluation -/

theorem supports_call {c : Context α} {f : Function} {es : List Expr} (hf : f.takes es.length = true) :
    c.Supports (.call f es) ↔ (∀ e ∈ es, c.Supports e) ∧ f.Accepts c.periods (es.map (valueAt c)) := by
  constructor
  · intro h
    refine ⟨fun e he => ⟨fun r hr => h.reads r ?_, fun o ho => h.steady o ?_⟩, ?_⟩
    · rw [Expr.references_call]
      exact List.mem_flatMap.mpr ⟨e, he, hr⟩
    · rw [offsets_call]
      exact List.mem_append_right _ (List.mem_flatMap.mpr ⟨e, he, ho⟩)
    · rintro rfl
      obtain ⟨e, o, rfl⟩ := List.length_eq_two.mp (Function.eq_of_takes hf rfl rfl)
      exact h.steady o (by simp [offsets_call])
  · rintro ⟨hes, ha⟩
    refine ⟨fun r hr => ?_, fun o ho => ?_⟩
    · rw [Expr.references_call] at hr
      obtain ⟨e, he, hr⟩ := List.mem_flatMap.mp hr
      exact (hes e he).reads r hr
    · rw [offsets_call] at ho
      rcases List.mem_append.mp ho with hs | hes'
      -- The call's own offset: only a shift has one, its second argument.
      · obtain ⟨rfl, hs⟩ : f = .shift ∧ o ∈ (es.drop 1).take 1 := by
          by_cases hf : f = .shift
          · exact ⟨hf, by rwa [if_pos hf] at hs⟩
          · rw [if_neg hf] at hs
            exact absurd hs List.not_mem_nil
        obtain ⟨e, o', rfl⟩ := List.length_eq_two.mp (Function.eq_of_takes hf rfl rfl)
        obtain rfl : o = o' := by simpa using hs
        exact ha rfl
      · obtain ⟨e, he, ho⟩ := List.mem_flatMap.mp hes'
        exact (hes e he).steady o ho

theorem supports_binary {c : Context α} {o : Operator} {l r : Expr} :
    c.Supports (.binary o l r) ↔ c.Supports l ∧ c.Supports r := by
  constructor
  · intro h
    exact ⟨⟨fun x hx => h.reads x (List.mem_append_left _ hx), fun x hx => h.steady x (List.mem_append_left _ hx)⟩,
      ⟨fun x hx => h.reads x (List.mem_append_right _ hx), fun x hx => h.steady x (List.mem_append_right _ hx)⟩⟩
  · rintro ⟨hl, hr⟩
    exact ⟨fun x hx => (List.mem_append.mp hx).elim (hl.reads x) (hr.reads x),
      fun x hx => (List.mem_append.mp hx).elim (hl.steady x) (hr.steady x)⟩

theorem evaluate_of_supports {c : Context α} {e : Expr} (he : e.Applied) (h : c.Supports e) :
    evaluate c e = .ok (tabulate c.periods (valueAt c e)) := by
  induction e using Expr.induct with
  | number x => simp [evaluate, tabulate, valueAt, List.map_const']
  | reference r =>
    obtain ⟨s, hs⟩ := Context.reads_iff.mp (h.reads r List.mem_cons_self)
    have hl := (Context.resolve_eq_ok_iff.mp hs).2
    rw [evaluate, hs, funext (valueAt_reference hs), ← hl, tabulate_getD]
  | negate e ih =>
    rw [evaluate, ih he.of_negate ⟨h.reads, h.steady⟩]
    exact congrArg Except.ok (by simp [tabulate, valueAt])
  | binary o l r ihl ihr =>
    obtain ⟨hl, hr⟩ := supports_binary.mp h
    rw [evaluate, ihl he.of_binary.1 hl, ihr he.of_binary.2 hr]
    exact congrArg Except.ok (by simp [tabulate, valueAt_binary, List.zipWith_map, List.zipWith_self])
  | call f es ih =>
    obtain ⟨hf, hes⟩ := he.of_call
    obtain ⟨hs, ha⟩ := (supports_call hf).mp h
    rw [evaluate, if_pos hf, evaluateAll_of_forall fun e he => ih e he (hes e he) (hs e he), valueAt_call]
    have := f.apply_tabulate (t := c.timeline) (by simpa using hf) ha
    rwa [List.map_map] at this

/-- An expression that has values is supported by its context. -/
theorem supports_of_evaluate {c : Context α} {e : Expr} {s : Series α} (he : e.Applied)
    (h : evaluate c e = .ok s) : c.Supports e := by
  induction e using Expr.induct generalizing s with
  | number x => exact ⟨fun _ hr => absurd hr List.not_mem_nil, fun _ ho => absurd ho List.not_mem_nil⟩
  | reference r =>
    refine ⟨fun r' hr => ?_, fun _ ho => absurd ho List.not_mem_nil⟩
    rw [List.mem_singleton.mp hr]
    exact Context.reads_iff.mpr ⟨s, h⟩
  | negate e ih =>
    obtain ⟨s', hs, -⟩ := bind_eq_ok_iff.mp h
    have := ih he.of_negate hs
    exact ⟨this.reads, this.steady⟩
  | binary o l r ihl ihr =>
    obtain ⟨ls, hl, h⟩ := bind_eq_ok_iff.mp h
    obtain ⟨rs, hr, -⟩ := bind_eq_ok_iff.mp h
    exact supports_binary.mpr ⟨ihl he.of_binary.1 hl, ihr he.of_binary.2 hr⟩
  | call f es ih =>
    obtain ⟨hf, hes⟩ := he.of_call
    rw [evaluate, if_pos hf] at h
    obtain ⟨ss, hss, h⟩ := bind_eq_ok_iff.mp h
    have hs : ∀ e ∈ es, c.Supports e := fun e he => by
      obtain ⟨s', hs'⟩ := exists_of_evaluateAll hss e he
      exact ih e he (hes e he) hs'
    -- The arguments are supported, hence tables, and the call tells that they are accepted.
    have hall := evaluateAll_of_forall fun e he => evaluate_of_supports (hes e he) (hs e he)
    rw [hall] at hss
    cases hss
    refine (supports_call hf).mpr ⟨hs, f.accepts_of_apply (t := c.timeline) (s := s) (by simpa using hf) ?_⟩
    rwa [List.map_map]

omit [Arithmetic α] in
theorem isBlankFormula_of_parse {cs : List Char} {e : Expr} (h : parse cs = .ok e) : isBlankFormula cs = false := by
  unfold parse at h
  split at h
  · cases h
  · next hb => exact Bool.eq_false_iff.mpr hb

theorem evaluateText_of_parse {c : Context α} {cs : List Char} {e : Expr} (h : parse cs = .ok e) :
    evaluateText c cs = .ofExcept c.periods (evaluate c e) := by
  rw [evaluateText, isBlankFormula_of_parse h, if_neg Bool.false_ne_true, h]
  rfl

theorem length_evaluateText (c : Context α) (cs : List Char) : (evaluateText c cs).values.length = c.periods := by
  unfold evaluateText
  split
  · exact List.length_replicate
  · cases h : parse cs >>= evaluate c with
    | error e => exact List.length_replicate
    | ok s =>
      obtain ⟨e, he, hs⟩ := bind_eq_ok_iff.mp h
      have happlied := applied_of_parse he
      rw [evaluate_of_supports happlied (supports_of_evaluate happlied hs)] at hs
      cases hs
      exact length_tabulate _ _

/-- A formula has values exactly when its references can be read and its shifts have constant
    offsets, and then they are, month by month, the values of the formula. -/
theorem evaluate_eq_valueAt {cs : List Char} {e : Expr} (h : parse cs = .ok e) (c : Context α) :
    ((∃ s, evaluate c e = .ok s) ↔ (∀ r ∈ e.references, c.Reads r) ∧ ∀ o ∈ e.offsets, c.Steady o) ∧
      ∀ s, evaluate c e = .ok s → s.length = c.periods ∧ ∀ i < c.periods, s[i]? = some (valueAt c e i) := by
  have he := applied_of_parse h
  refine ⟨⟨?_, ?_⟩, ?_⟩
  · rintro ⟨s, hs⟩
    have := supports_of_evaluate he hs
    exact ⟨this.reads, this.steady⟩
  · rintro ⟨hr, ho⟩
    exact ⟨_, evaluate_of_supports he ⟨hr, ho⟩⟩
  · intro s hs
    rw [evaluate_of_supports he (supports_of_evaluate he hs)] at hs
    cases hs
    exact ⟨length_tabulate _ _, fun i hi => getElem?_tabulate _ hi⟩

/-- A quarter in which a calculation has the values 1, 2 and 4, and their running sum. -/
theorem evaluate_eq_valueAt_quarter :
    let c : Context Float := ⟨.consecutive ⟨24300⟩ 3, .empty 3, fun _ => some [1, 2, 4]⟩
    let e : Expr := .binary .add (.call .cumsum [.reference (.calculation 9)]) (.reference (.calculation 8))
    parse "CUMSUM(R9) + R8".toList = .ok e ∧
      ((∃ s, evaluate c e = .ok s) ↔ (∀ r ∈ e.references, c.Reads r) ∧ ∀ o ∈ e.offsets, c.Steady o) ∧
      ∀ s, evaluate c e = .ok s → s.length = c.periods ∧ ∀ i < c.periods, s[i]? = some (valueAt c e i) := by
  have h : parse "CUMSUM(R9) + R8".toList = .ok (.binary .add (.call .cumsum [.reference (.calculation 9)])
      (.reference (.calculation 8))) := by cbv
  exact ⟨h, evaluate_eq_valueAt h _⟩

end MonthlyModel.Formula
