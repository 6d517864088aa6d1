import Mathlib
import MonthlyModel.Proofs.Formula.Pointwise

/-! Formulas over numbers that stand for one another.

A relation between numbers that arithmetic keeps is kept by formulas: over series that are related month
by month they have the same error, or related values. Powers need not keep the relation; where one does
not, it has to be looked at in the formula. -/

namespace MonthlyModel.Formula

open List (Forall₂)
open Relator

/-! ### Related series -/

section

variable {α : Type} {R : α → α → Prop} {x x' : α} {xs xs' : Series α} {op : α → α → α}

theorem rel_zipWith {β γ : Type} {S : β → β → Prop} {T : γ → γ → Prop} {f : α → β → γ} {bs bs' : List β}
    (hf : (R ⇒ S ⇒ T) f f) (h : Forall₂ R xs xs') (hb : Forall₂ S bs bs') :
    Forall₂ T (List.zipWith f xs bs) (List.zipWith f xs' bs') := by
  induction h generalizing bs bs' with
  | nil => exact .nil
  | cons h _ ih =>
    cases hb with
    | nil => exact .nil
    | cons h' hb => exact .cons (hf h h') (ih hb)

theorem rel_or {β : Type} {S : β → β → Prop} {a a' b b' : Option β} (h : Option.Rel S a a') (h' : Option.Rel S b b') :
    Option.Rel S (a.or b) (a'.or b') := by
  cases h with
  | some h => exact .some h
  | none => exact h'

theorem rel_running (hop : (R ⇒ R ⇒ R) op op) (hx : R x x') (h : Forall₂ R xs xs') :
    Forall₂ R (running op x xs) (running op x' xs') := by
  induction h generalizing x x' with
  | nil => exact .nil
  | cons hy _ ih => exact .cons (hop hx hy) (ih (hop hx hy))

theorem rel_runningByYear (hop : (R ⇒ R ⇒ R) op op) (hx : R x x) (yearStarts : List Bool) (h : Forall₂ R xs xs') :
    Forall₂ R (runningByYear op x yearStarts xs) (runningByYear op x yearStarts xs') := by
  have hgo (acc acc' : α) (hacc : R acc acc') : Forall₂ R (runningByYear.go op x acc (yearStarts.zip xs))
      (runningByYear.go op x acc' (yearStarts.zip xs')) := by
    induction h generalizing acc acc' yearStarts with
    | nil => simp only [List.zip_nil_right, runningByYear.go, List.forall₂_nil_right_iff]
    | cons hy _ ih =>
      cases yearStarts with
      | nil => exact .nil
      | cons opensYear yearStarts =>
        have hstart : R (if opensYear then x else acc) (if opensYear then x else acc') := by
          split
          · exact hx
          · exact hacc
        exact .cons (hop hstart hy) (ih yearStarts _ _ (hop hstart hy))
  exact hgo x x hx

theorem rel_columns (n : Nat) {ss ss' : List (Series α)} (h : Forall₂ (Forall₂ R) ss ss') :
    Forall₂ (Forall₂ R) (columns n ss) (columns n ss') := by
  refine List.rel_foldr (fun _ _ hs _ _ ht => ?_) (List.forall₂_same.mpr fun _ hx => ?_) h
  · exact rel_zipWith (fun _ _ hx _ _ hxs => .cons hx hxs) hs ht
  · rw [List.eq_of_mem_replicate hx]
    exact .nil

end

variable {α : Type} [Arithmetic α] {R : α → α → Prop} {c c' : Context α} {x x' y y' : α} {xs xs' ys ys' : Series α}

/-- A relation that all arithmetic keeps but powers. Quotients keep it where they are formed. -/
structure Congruence (R : α → α → Prop) : Prop where
  refl : ∀ x, R x x
  add : (R ⇒ R ⇒ R) (· + ·) (· + ·)
  sub : (R ⇒ R ⇒ R) (· - ·) (· - ·)
  mul : (R ⇒ R ⇒ R) (· * ·) (· * ·)
  neg : (R ⇒ R) (- ·) (- ·)
  quotient : ∀ {x x' y y'}, R x x' → R y y' → ¬ Arithmetic.equal y 0 = true →
    R (Arithmetic.quotient x y) (Arithmetic.quotient x' y')
  magnitude : (R ⇒ R) Arithmetic.magnitude Arithmetic.magnitude
  smallest : (Forall₂ R ⇒ R) Arithmetic.smallest Arithmetic.smallest
  largest : (Forall₂ R ⇒ R) Arithmetic.largest Arithmetic.largest
  equal : (R ⇒ R ⇒ Eq) Arithmetic.equal Arithmetic.equal
  less : (R ⇒ R ⇒ Eq) Arithmetic.less Arithmetic.less
  atMost : (R ⇒ R ⇒ Eq) Arithmetic.atMost Arithmetic.atMost
  whole? : (R ⇒ Eq) Arithmetic.whole? Arithmetic.whole?

namespace Congruence

/-! ### Operators -/

theorem apply (hR : Congruence R) {o : Operator} (ho : o ≠ .power) (hx : R x x') (hy : R y y') :
    R (o.apply x y) (o.apply x' y') := by
  cases o with
  | add => exact hR.add hx hy
  | subtract => exact hR.sub hx hy
  | multiply => exact hR.mul hx hy
  | divide =>
    simp only [Operator.apply, ← hR.equal hy (hR.refl 0)]
    split
    · exact hR.refl 0
    · next h => exact hR.quotient hx hy h
  | power => exact absurd rfl ho
  | equal => simpa only [Operator.apply, hR.equal hx hy] using hR.refl _
  | less => simpa only [Operator.apply, hR.less hx hy] using hR.refl _
  | atMost => simpa only [Operator.apply, hR.atMost hx hy] using hR.refl _
  | greater => simpa only [Operator.apply, hR.less hy hx] using hR.refl _
  | atLeast => simpa only [Operator.apply, hR.atMost hy hx] using hR.refl _

theorem countStep (hR : Congruence R) : (R ⇒ R ⇒ R) (countStep (α := α)) Formula.countStep := by
  intro x x' hx y y' hy
  unfold Formula.countStep
  rw [← hR.equal hy (hR.refl 0)]
  split
  · exact hx
  · exact hR.add hx (hR.refl 1)

/-! ### Functions -/

theorem series (hR : Congruence R) (xs : Series α) : Forall₂ R xs xs :=
  List.forall₂_same.mpr fun x _ => hR.refl x

theorem binding (hR : Congruence R) (s : Option (Series α)) : Option.Rel (Forall₂ R) s s := by
  cases s with
  | none => exact .none
  | some xs => exact .some (hR.series xs)

theorem shift (hR : Congruence R) (offset : Int) (h : Forall₂ R xs xs') :
    Forall₂ R (Formula.shift xs offset) (Formula.shift xs' offset) := by
  unfold Formula.shift delay advance
  rw [h.length_eq]
  split
  · exact List.rel_append (hR.series _) (List.forall₂_take _ h)
  · exact List.rel_append (List.forall₂_drop _ h) (hR.series _)

theorem all_whole (hR : Congruence R) (k : Option Int) (h : Forall₂ R xs xs') :
    xs.all (Arithmetic.whole? · == k) = xs'.all (Arithmetic.whole? · == k) := by
  induction h with
  | nil => rfl
  | cons hx _ ih => rw [List.all_cons, List.all_cons, hR.whole? hx, ih]

theorem constantOffset? (hR : Congruence R) (h : Forall₂ R xs xs') :
    Formula.constantOffset? xs = Formula.constantOffset? xs' := by
  cases h with
  | nil => rfl
  | cons hx h => simp only [Formula.constantOffset?, hR.whole? hx, hR.all_whole _ h]

theorem shiftBy (hR : Congruence R) (h : Forall₂ R xs xs') (h' : Forall₂ R ys ys') :
    Corresponds (Forall₂ R) (Formula.shiftBy xs ys) (Formula.shiftBy xs' ys') := by
  have hempty : ys.isEmpty = ys'.isEmpty := by cases h' <;> rfl
  unfold Formula.shiftBy
  rw [hempty, hR.constantOffset? h']
  split
  · exact .ok h
  · split
    · exact .ok (hR.shift _ h)
    · exact .error _

theorem function (hR : Congruence R) {t : Timeline} {f : Function} {ss ss' : List (Series α)}
    (h : Forall₂ (Forall₂ R) ss ss') : Corresponds (Forall₂ R) (f.apply t ss) (f.apply t ss') := by
  have hx : Forall₂ R (ss.headD []) (ss'.headD []) := by
    cases h with
    | nil => exact .nil
    | cons hx _ => exact hx
  -- A missing argument counts as an empty series on both sides.
  have hoffsets : Forall₂ R (ss.getD 1 []) (ss'.getD 1 []) := by
    cases h with
    | nil => exact .nil
    | cons _ h =>
      cases h with
      | nil => exact .nil
      | cons ho _ => exact ho
  have hzero := hR.refl 0
  have hone := hR.refl 1
  cases f with
  | abs => exact .ok (List.rel_map hR.magnitude hx)
  | max => exact .ok (List.rel_map hR.largest (rel_columns _ h))
  | min => exact .ok (List.rel_map hR.smallest (rel_columns _ h))
  | count => exact .ok (rel_running hR.countStep hzero hx)
  | cumprod => exact .ok (rel_running hR.mul hone hx)
  | cumprodByYear => exact .ok (rel_runningByYear hR.mul hone _ hx)
  | cumsum => exact .ok (rel_running hR.add hzero hx)
  | cumsumByYear => exact .ok (rel_runningByYear hR.add hzero _ hx)
  | prevsum => exact .ok (hR.shift _ (rel_running hR.add hzero hx))
  | prevval => exact .ok (hR.shift _ hx)
  | shift => exact hR.shiftBy hx hoffsets

end Congruence

/-! ### Expressions -/

/-- The powers in an expression: each base with its exponent. -/
def Expr.powers : Expr → List (Expr × Expr)
  | .number _ => []
  | .reference _ => []
  | .negate e => e.powers
  | .binary o l r => (if o = .power then [(l, r)] else []) ++ (l.powers ++ r.powers)
  | .call _ es => powersOfAll es
where
  powersOfAll : List Expr → List (Expr × Expr)
    | [] => []
    | e :: es => e.powers ++ powersOfAll es

theorem Expr.powers_call (f : Function) (es : List Expr) : (Expr.call f es).powers = es.flatMap Expr.powers := by
  rw [powers]
  induction es with
  | nil => rfl
  | cons e es ih => rw [powers.powersOfAll, ih, List.flatMap_cons]

/-- A power that keeps the relation between the values of its base and of its exponent in two contexts. -/
def KeepsPower (R : α → α → Prop) (c c' : Context α) (base exponent : Expr) : Prop :=
  ∀ {xs xs' ys ys'}, evaluate c base = .ok xs → evaluate c' base = .ok xs' → evaluate c exponent = .ok ys →
    evaluate c' exponent = .ok ys' → Forall₂ R xs xs' → Forall₂ R ys ys' →
    Forall₂ R (List.zipWith Arithmetic.power xs ys) (List.zipWith Arithmetic.power xs' ys')

/-- A reference stands for related series in two contexts, or for none in both. -/
def SameBinding (R : α → α → Prop) (c c' : Context α) (r : Reference) : Prop :=
  Option.Rel (Forall₂ R) (c.bound? r) (c'.bound? r)

theorem Context.resolve_corresponds (hR : Congruence R) (ht : c'.timeline = c.timeline) {r : Reference}
    (h : SameBinding R c c' r) : Corresponds (Forall₂ R) (c.resolve r) (c'.resolve r) := by
  have hp : c'.periods = c.periods := congrArg Timeline.length ht
  have hc : c'.constant? r = c.constant? r := by
    unfold constant?
    rw [ht]
  have hbound : Option.Rel (Forall₂ R) ((c.bound? r).or (c.constant? r)) ((c'.bound? r).or (c'.constant? r)) := by
    rw [hc]
    exact rel_or h (hR.binding _)
  unfold resolve
  rw [hp]
  generalize (c.bound? r).or (c.constant? r) = s at hbound
  generalize (c'.bound? r).or (c'.constant? r) = s' at hbound
  cases hbound with
  | none => exact .error _
  | some h =>
    dsimp only
    rw [h.length_eq]
    split
    · exact .ok h
    · exact .error _

theorem evaluateAll_corresponds {es : List Expr}
    (h : ∀ e ∈ es, Corresponds (Forall₂ R) (evaluate c e) (evaluate c' e)) :
    Corresponds (Forall₂ (Forall₂ R)) (evaluate.evaluateAll c es) (evaluate.evaluateAll c' es) := by
  induction es with
  | nil => exact .ok .nil
  | cons e es ih =>
    obtain ⟨he, hes⟩ := List.forall_mem_cons.mp h
    rw [evaluate.evaluateAll, evaluate.evaluateAll]
    exact he.bind fun _ _ hs => (ih hes).bind fun _ _ hss => .ok (.cons hs hss)

/-- An expression has the same error, or related values, in two contexts in which its references stand for
    related series, if its powers keep the relation. -/
theorem evaluate_corresponds (hR : Congruence R) (ht : c'.timeline = c.timeline) {e : Expr}
    (h : ∀ r ∈ e.references, SameBinding R c c' r) (hp : ∀ p ∈ e.powers, KeepsPower R c c' p.1 p.2) :
    Corresponds (Forall₂ R) (evaluate c e) (evaluate c' e) := by
  induction e using Expr.induct with
  | number x =>
    rw [evaluate, evaluate, Context.periods, Context.periods, ht]
    exact .ok (hR.series _)
  | reference r => exact Context.resolve_corresponds hR ht (h r List.mem_cons_self)
  | negate e ih =>
    rw [evaluate, evaluate]
    exact (ih h hp).bind fun _ _ hs => .ok (List.rel_map hR.neg hs)
  | binary o l r ihl ihr =>
    have hl := ihl (fun x hx => h x (List.mem_append_left _ hx)) fun p hx =>
      hp p (List.mem_append_right _ (List.mem_append_left _ hx))
    have hr := ihr (fun x hx => h x (List.mem_append_right _ hx)) fun p hx =>
      hp p (List.mem_append_right _ (List.mem_append_right _ hx))
    rw [evaluate, evaluate]
    refine hl.bind fun hls hls' hs => hr.bind fun hrs hrs' hs' => .ok ?_
    -- Powers are the operations that need not respect the relation.
    by_cases ho : o = .power
    · subst ho
      exact hp (l, r) List.mem_cons_self hls hls' hrs hrs' hs hs'
    · exact rel_zipWith (fun _ _ hx _ _ hy => hR.apply ho hx hy) hs hs'
  | call f es ih =>
    rw [Expr.references_call] at h
    rw [Expr.powers_call] at hp
    have hes := evaluateAll_corresponds fun e he => ih e he
      (fun r hr => h r (List.mem_flatMap.mpr ⟨e, he, hr⟩)) fun p hx => hp p (List.mem_flatMap.mpr ⟨e, he, hx⟩)
    rw [evaluate, evaluate, ht]
    split
    · exact hes.bind fun _ _ hss => hR.function hss
    · exact .error _

/-! ### Formulas -/

/-- Two evaluations with the same error, and with related values. -/
structure Evaluation.Related (R : α → α → Prop) (a b : Evaluation α) : Prop where
  error : b.error = a.error
  values : Forall₂ R a.values b.values

theorem Evaluation.Related.refl (hR : Congruence R) (a : Evaluation α) : a.Related R a :=
  ⟨rfl, hR.series _⟩

theorem Evaluation.related_ofExcept (hR : Congruence R) (n : Nat) {s s' : Except FormulaError (Series α)}
    (h : Corresponds (Forall₂ R) s s') : (ofExcept n s).Related R (ofExcept n s') := by
  cases h with
  | ok h => exact ⟨rfl, h⟩
  | error e => exact .refl hR _

/-- A formula has the same error, or related values, in two contexts in which the references of its text
    stand for related series, if its powers keep the relation. -/
theorem evaluateText_related (hR : Congruence R) (ht : c'.timeline = c.timeline) {cs : List Char}
    (h : ∀ r ∈ namedReferences cs, SameBinding R c c' r)
    (hp : ∀ {e}, parse cs = .ok e → ∀ p ∈ e.powers, KeepsPower R c c' p.1 p.2) :
    (evaluateText c cs).Related R (evaluateText c' cs) := by
  have hperiods : c'.periods = c.periods := congrArg Timeline.length ht
  unfold evaluateText
  rw [hperiods]
  split
  · exact .refl hR _
  · refine Evaluation.related_ofExcept hR _ ?_
    cases he : parse cs with
    | error e => exact .error e
    | ok e => exact evaluate_corresponds hR ht (fun r hr => h r (mem_namedReferences_of_mem_references he hr)) (hp he)

end MonthlyModel.Formula
