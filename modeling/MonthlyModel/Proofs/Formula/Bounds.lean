import MonthlyModel.Proofs.Formula.Pointwise

/-! Evaluation with every access checked.

A function of single months reads the series of its arguments by position, and whatever a function gives
is to have one value for each month. The evaluator here checks both and reports what is not so. It has
nothing to report: a reference stands for a series of the timeline's length or for none, whatever a
context binds, and all functions keep that length. -/

namespace MonthlyModel.Formula

variable {α : Type} [Arithmetic α]

/-- What keeps a checked evaluation from giving a series. -/
inductive Fault where
  | formula (e : FormulaError)
  /-- A position that a series does not have. -/
  | outside (position length : Nat)
  /-- A function whose value is longer or shorter than the timeline. -/
  | uneven (f : Function) (actual expected : Nat)

/-! ### Checked accesses -/

/-- The values of several series at a position. -/
def readMonth (ss : List (Series α)) (i : Nat) : Except Fault (List α) :=
  ss.mapM fun s =>
    match s[i]? with
    | some x => .ok x
    | none => .error (.outside i s.length)

/-- A function of the values of a month, month by month. -/
def overMonths (n : Nat) (fold : List α → α) (ss : List (Series α)) : Except Fault (Series α) :=
  (List.range n).mapM fun i => (readMonth ss i).map fold

/-- The value of a function. Temporal functions walk over their arguments and read nothing by position. -/
def Function.applyChecked (t : Timeline) (f : Function) (arguments : List (Series α)) : Except Fault (Series α) :=
  match f with
  | .abs => overMonths t.length (fun xs => Arithmetic.magnitude (xs.headD 0)) arguments
  | .max => overMonths t.length Arithmetic.largest arguments
  | .min => overMonths t.length Arithmetic.smallest arguments
  | f => (f.apply t arguments).mapError .formula

/-- The value of a function, which must have the length of the timeline. -/
def checkLength (f : Function) (n : Nat) (s : Series α) : Except Fault (Series α) :=
  if s.length = n then .ok s else .error (.uneven f s.length n)

/-- The value of an expression, found with every access checked. -/
def evaluateChecked (c : Context α) : Expr → Except Fault (Series α)
  | .number x => .ok (List.replicate c.periods (Arithmetic.literal x))
  | .reference r => (c.resolve r).mapError .formula
  | .negate e => do return (← evaluateChecked c e).map (- ·)
  | .binary o l r => do
    let ls ← evaluateChecked c l
    let rs ← evaluateChecked c r
    return List.zipWith o.apply ls rs
  | .call f es =>
    if f.takes es.length then do
      checkLength f c.periods (← f.applyChecked c.timeline (← evaluateAllChecked c es))
    else .error (.formula (.argumentCount f es.length))
where
  /-- The values of several expressions. -/
  evaluateAllChecked (c : Context α) : List Expr → Except Fault (List (Series α))
    | [] => .ok []
    | e :: es => do
      let s ← evaluateChecked c e
      return s :: (← evaluateAllChecked c es)

/-! ### Series of one length -/

theorem map_tabulate_getD {n : Nat} {ss : List (Series α)} (h : ∀ s ∈ ss, s.length = n) :
    (ss.map fun s i => s.getD i 0).map (tabulate n) = ss := by
  induction ss with
  | nil => rfl
  | cons s ss ih =>
    obtain ⟨hs, hss⟩ := List.forall_mem_cons.mp h
    rw [List.map_cons, List.map_cons, ih hss, ← hs, tabulate_getD]

theorem readMonth_tabulate {n i : Nat} (xs : List (Nat → α)) (hi : i < n) :
    readMonth (xs.map (tabulate n)) i = .ok (xs.map (· i)) := by
  rw [readMonth, mapM_eq_ok (g := fun s => s.getD i 0) ?_]
  · simp [tabulate, hi]
  · intro s hs
    obtain ⟨x, -, rfl⟩ := List.mem_map.mp hs
    rw [getElem?_tabulate x hi, List.getD_eq_getElem?_getD, getElem?_tabulate x hi, Option.getD_some]

theorem overMonths_tabulate (n : Nat) (fold : List α → α) (xs : List (Nat → α)) :
    overMonths n fold (xs.map (tabulate n)) = .ok (tabulate n fun i => fold (xs.map (· i))) := by
  refine mapM_eq_ok fun i hi => ?_
  rw [readMonth_tabulate xs (List.mem_range.mp hi)]
  rfl

variable {t : Timeline} {c : Context α} {f : Function} {ss : List (Series α)} {e : Expr} {s : Series α}

/-- On series of the timeline's length a function reads no position that they do not have. -/
theorem Function.applyChecked_eq (hf : f.takes ss.length = true) (hss : ∀ s ∈ ss, s.length = t.length) :
    f.applyChecked t ss = (f.apply t ss).mapError .formula := by
  rw [← map_tabulate_getD hss] at hf ⊢
  generalize (ss.map fun s i => s.getD i 0) = xs at hf ⊢
  rw [List.length_map] at hf
  cases f with
  | max | min =>
    rw [applyChecked, overMonths_tabulate, apply_tabulate hf nofun]
    rfl
  | abs =>
    obtain ⟨x, rfl⟩ := List.length_eq_one_iff.mp (eq_of_takes hf rfl rfl)
    rw [applyChecked, overMonths_tabulate, apply_tabulate hf nofun]
    rfl
  | _ => rfl

theorem Function.length_of_apply (hf : f.takes ss.length = true) (hss : ∀ s ∈ ss, s.length = t.length)
    (h : f.apply t ss = .ok s) : s.length = t.length := by
  rw [← map_tabulate_getD hss] at hf h
  rw [List.length_map] at hf
  rw [apply_tabulate hf (accepts_of_apply hf h)] at h
  cases h
  exact length_tabulate _ _

theorem lengths_of_evaluateAll {es : List Expr} (ih : ∀ e ∈ es, ∀ {s}, evaluate c e = .ok s → s.length = c.periods)
    (h : evaluate.evaluateAll c es = .ok ss) : ss.length = es.length ∧ ∀ s ∈ ss, s.length = c.periods := by
  induction es generalizing ss with
  | nil =>
    cases h
    simp
  | cons e es ih' =>
    obtain ⟨he, hes⟩ := List.forall_mem_cons.mp ih
    obtain ⟨s, hs, h⟩ := bind_eq_ok_iff.mp h
    obtain ⟨ss', hss, h⟩ := bind_eq_ok_iff.mp h
    cases h
    obtain ⟨hlength, hall⟩ := ih' hes hss
    exact ⟨by simp [hlength], List.forall_mem_cons.mpr ⟨he hs, hall⟩⟩

theorem length_of_evaluate (h : evaluate c e = .ok s) : s.length = c.periods := by
  induction e using Expr.induct generalizing s with
  | number x =>
    cases h
    exact List.length_replicate
  | reference r => exact (Context.resolve_eq_ok_iff.mp h).2
  | negate e ih =>
    obtain ⟨s', hs, h⟩ := bind_eq_ok_iff.mp h
    cases h
    rw [List.length_map, ih hs]
  | binary o l r ihl ihr =>
    obtain ⟨ls, hl, h⟩ := bind_eq_ok_iff.mp h
    obtain ⟨rs, hr, h⟩ := bind_eq_ok_iff.mp h
    cases h
    rw [List.length_zipWith, ihl hl, ihr hr, Nat.min_self]
  | call f es ih =>
    rw [evaluate] at h
    split at h
    · next hf =>
      obtain ⟨ss, hss, h⟩ := bind_eq_ok_iff.mp h
      obtain ⟨hlength, hall⟩ := lengths_of_evaluateAll ih hss
      exact Function.length_of_apply (hlength ▸ hf) hall h
    · cases h

/-! ### Nothing to report -/

theorem evaluateAllChecked_eq {es : List Expr}
    (ih : ∀ e ∈ es, evaluateChecked c e = (evaluate c e).mapError .formula) :
    evaluateChecked.evaluateAllChecked c es = (evaluate.evaluateAll c es).mapError .formula := by
  induction es with
  | nil => rfl
  | cons e es ih' =>
    obtain ⟨he, hes⟩ := List.forall_mem_cons.mp ih
    rw [evaluateChecked.evaluateAllChecked, evaluate.evaluateAll, he, ih' hes]
    cases evaluate c e with
    | error error => rfl
    | ok s => cases evaluate.evaluateAll c es <;> rfl

theorem evaluateChecked_eq (c : Context α) (e : Expr) : evaluateChecked c e = (evaluate c e).mapError .formula := by
  induction e using Expr.induct with
  | number x => rfl
  | reference r => rfl
  | negate e ih =>
    rw [evaluateChecked, evaluate, ih]
    cases evaluate c e <;> rfl
  | binary o l r ihl ihr =>
    rw [evaluateChecked, evaluate, ihl, ihr]
    cases evaluate c l with
    | error error => rfl
    | ok ls => cases evaluate c r <;> rfl
  | call f es ih =>
    rw [evaluateChecked, evaluate]
    split
    · next hf =>
      rw [evaluateAllChecked_eq ih]
      cases hss : evaluate.evaluateAll c es with
      | error error => rfl
      | ok ss =>
        obtain ⟨hlength, hall⟩ := lengths_of_evaluateAll (fun e _ {s} => length_of_evaluate) hss
        change (f.applyChecked c.timeline ss >>= checkLength f c.periods) = (f.apply c.timeline ss).mapError .formula
        rw [Function.applyChecked_eq (hlength ▸ hf) hall]
        cases hs : f.apply c.timeline ss with
        | error error => rfl
        | ok s => exact if_pos (Function.length_of_apply (hlength ▸ hf) hall hs)
    · rfl

/-- A formula has a value for every month in any context, whatever it binds and however long. On the way
    no series is read outside of its positions, and where there is an error all values are zero. -/
theorem evaluateText_whole (c : Context α) (cs : List Char) :
    (evaluateText c cs).values.length = c.periods ∧
      (∀ e, parse cs = .ok e → evaluateChecked c e = (evaluate c e).mapError .formula) ∧
      ∀ error, (evaluateText c cs).error = some error → (evaluateText c cs).values = List.replicate c.periods 0 := by
  refine ⟨length_evaluateText c cs, fun e _ => evaluateChecked_eq c e, fun error h => ?_⟩
  unfold evaluateText at h ⊢
  split at h
  · cases h
  · next hblank =>
    rw [if_neg hblank]
    cases hs : parse cs >>= evaluate c with
    | error error => rfl
    | ok s =>
      rw [hs] at h
      cases h

/-- Three months, a map of series for two, and a calculation with one value. -/
def ragged : Context Float :=
  ⟨.consecutive ⟨24300⟩ 3, (SeriesMap.empty 2).bind ⟨.input, [1], none, none⟩ [1, 2] rfl, fun _ => some [4]⟩

theorem evaluateText_whole_ragged :
    let e : Expr := .call .max [.reference ⟨.input, [1], none, none⟩, .reference (.calculation 2)]
    let fault : FormulaError := .seriesLength ⟨.input, [1], none, none⟩ 2 3
    parse "MAX(V1, R2)".toList = .ok e ∧ (evaluateText ragged "MAX(V1, R2)".toList).error = some fault ∧
      (evaluateText ragged "MAX(V1, R2)".toList).values.length = 3 ∧
      evaluateChecked ragged e = (evaluate ragged e).mapError .formula ∧
      (evaluateText ragged "MAX(V1, R2)".toList).values = [0, 0, 0] := by
  have hparse : parse "MAX(V1, R2)".toList =
      .ok (.call .max [.reference ⟨.input, [1], none, none⟩, .reference (.calculation 2)]) := by cbv
  have hresolve : ragged.resolve ⟨.input, [1], none, none⟩ = .error (.seriesLength ⟨.input, [1], none, none⟩ 2 3) := by
    have hbound : ragged.bound? ⟨.input, [1], none, none⟩ = some [1, 2] :=
      (SeriesMap.get?_bind (SeriesMap.empty 2) _ [1, 2] rfl _).trans (if_pos rfl)
    rw [Context.resolve, hbound]
    rfl
  have herror : (evaluateText ragged "MAX(V1, R2)".toList).error =
      some (.seriesLength ⟨.input, [1], none, none⟩ 2 3) := by
    rw [evaluateText_of_parse hparse, evaluate, if_pos (by decide), evaluate.evaluateAll, evaluate, hresolve]
    rfl
  obtain ⟨hlength, hchecked, hzero⟩ := evaluateText_whole ragged "MAX(V1, R2)".toList
  exact ⟨hparse, herror, hlength, hchecked _ hparse, hzero _ herror⟩

end MonthlyModel.Formula
