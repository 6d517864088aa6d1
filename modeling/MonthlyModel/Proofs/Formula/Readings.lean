import MonthlyModel.Formula.Evaluation
import MonthlyModel.Proofs.Formula.Names

/-! What evaluation reads.

The value of a formula depends on the timeline and on the series of the references that its text
names, and on nothing else. -/

namespace MonthlyModel.Formula

variable {α : Type} [Arithmetic α] {c c' : Context α}

theorem Context.resolve_eq_ok_iff {r : Reference} {s : Series α} :
    c.resolve r = .ok s ↔ (c.bound? r).or (c.constant? r) = some s ∧ s.length = c.periods := by
  unfold Context.resolve
  cases (c.bound? r).or (c.constant? r) with
  | none => simp
  | some s' =>
    by_cases hl : s'.length = c.periods
    · simp only [if_pos hl, Except.ok.injEq, Option.some.injEq]
      exact ⟨fun h => ⟨h, h ▸ hl⟩, And.left⟩
    · simp only [if_neg hl, reduceCtorEq, Option.some.injEq, false_iff, not_and]
      exact fun h => h ▸ hl

theorem Context.resolve_congr (ht : c.timeline = c'.timeline) {r : Reference} (h : c.bound? r = c'.bound? r) :
    c.resolve r = c'.resolve r := by
  unfold Context.resolve Context.constant? Context.periods
  rw [h, ht]

theorem evaluateAll_congr {es : List Expr} (h : ∀ e ∈ es, evaluate c e = evaluate c' e) :
    evaluate.evaluateAll c es = evaluate.evaluateAll c' es := by
  induction es with
  | nil => rfl
  | cons e es ih =>
    obtain ⟨he, hes⟩ := List.forall_mem_cons.mp h
    rw [evaluate.evaluateAll, evaluate.evaluateAll, he, ih hes]

theorem evaluate_congr (ht : c.timeline = c'.timeline) {e : Expr}
    (h : ∀ r ∈ e.references, c.bound? r = c'.bound? r) : evaluate c e = evaluate c' e := by
  induction e using Expr.induct with
  | number x =>
    rw [evaluate, evaluate, Context.periods, Context.periods, ht]
  | reference r => exact Context.resolve_congr ht (h r List.mem_cons_self)
  | negate e ih => rw [evaluate, evaluate, ih h]
  | binary o l r ihl ihr =>
    rw [evaluate, evaluate, ihl fun x hx => h x (List.mem_append_left _ hx),
      ihr fun x hx => h x (List.mem_append_right _ hx)]
  | call f es ih =>
    rw [Expr.references_call] at h
    have hes : ∀ e ∈ es, evaluate c e = evaluate c' e := fun e he =>
      ih e he fun r hr => h r (List.mem_flatMap.mpr ⟨e, he, hr⟩)
    rw [evaluate, evaluate, evaluateAll_congr hes, ht]

/-- A formula has one value in all contexts in which the references of its text stand for the same
    series. -/
theorem evaluateText_congr (ht : c.timeline = c'.timeline) {cs : List Char}
    (h : ∀ r ∈ namedReferences cs, c.bound? r = c'.bound? r) : evaluateText c cs = evaluateText c' cs := by
  have hp : c.periods = c'.periods := congrArg Timeline.length ht
  unfold evaluateText
  rw [hp]
  cases hcs : parse cs with
  | error e => rfl
  | ok e =>
    have := evaluate_congr ht fun r hr => h r (mem_namedReferences_of_mem_references hcs hr)
    simp only [bind, Except.bind, this]

end MonthlyModel.Formula
