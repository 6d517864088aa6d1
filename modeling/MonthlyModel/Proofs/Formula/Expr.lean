import MonthlyModel.Formula.Expr

/-! Induction over expressions, and what is said of all calls in one.

An expression holds the arguments of a call in a list, so the induction hypothesis of a call is about
every member of that list. -/

namespace MonthlyModel.Formula
namespace Expr

/-- Induction over expressions: a statement holds of all if each form keeps it. -/
@[elab_as_elim]
theorem induct {P : Expr → Prop} (number : ∀ x, P (.number x)) (reference : ∀ r, P (.reference r))
    (negate : ∀ e, P e → P (.negate e)) (binary : ∀ o l r, P l → P r → P (.binary o l r))
    (call : ∀ f es, (∀ e ∈ es, P e) → P (.call f es)) (e : Expr) : P e := by
  induction e using Expr.rec (motive_2 := fun es => ∀ e ∈ es, P e) with
  | number x => exact number x
  | reference r => exact reference r
  | negate e ih => exact negate e ih
  | binary o l r hl hr => exact binary o l r hl hr
  | call f es ih => exact call f es ih
  | nil _ he => exact absurd he List.not_mem_nil
  | cons e es he hes e' he' =>
    rcases List.mem_cons.mp he' with rfl | he'
    · exact he
    · exact hes e' he'

theorem referencesOfAll_eq (es : List Expr) : references.referencesOfAll es = es.flatMap references := by
  induction es with
  | nil => rfl
  | cons e es ih => simp [references.referencesOfAll, ih]

theorem references_call (f : Function) (es : List Expr) : (call f es).references = es.flatMap references := by
  rw [references, referencesOfAll_eq]

/-- The numbers that an expression writes: its literals, and those with minus signs in front. -/
def numbers : Expr → List Float
  | .number x => [x]
  | .reference _ => []
  | .negate e => (Expr.negate e).asNumber?.toList ++ e.numbers
  | .binary _ l r => l.numbers ++ r.numbers
  | .call _ es => numbersOfAll es
where
  /-- The numbers that several expressions write. -/
  numbersOfAll : List Expr → List Float
    | [] => []
    | e :: es => e.numbers ++ numbersOfAll es

theorem numbers_call (f : Function) (es : List Expr) : (call f es).numbers = es.flatMap numbers := by
  rw [numbers]
  induction es with
  | nil => rfl
  | cons e es ih => rw [numbers.numbersOfAll, ih, List.flatMap_cons]

theorem mem_numbers_of_asNumber? {e : Expr} {x : Float} (h : e.asNumber? = some x) : x ∈ e.numbers := by
  cases e with
  | number y =>
    cases h
    exact List.mem_singleton_self _
  | negate e => exact List.mem_append_left _ (Option.mem_toList.mpr h)
  | _ => cases h

/-- Every call takes the number of arguments that it has. -/
inductive Applied : Expr → Prop where
  | number (x : Float) : Applied (.number x)
  | reference (r : Reference) : Applied (.reference r)
  | negate {e : Expr} (he : Applied e) : Applied (.negate e)
  | binary (o : Operator) {l r : Expr} (hl : Applied l) (hr : Applied r) : Applied (.binary o l r)
  | call {f : Function} {es : List Expr} (hf : f.takes es.length = true) (hes : ∀ e ∈ es, Applied e) :
    Applied (.call f es)

theorem Applied.of_negate {e : Expr} (h : Applied (.negate e)) : Applied e := by
  cases h with
  | negate he => exact he

theorem Applied.of_binary {o : Operator} {l r : Expr} (h : Applied (.binary o l r)) : Applied l ∧ Applied r := by
  cases h with
  | binary _ hl hr => exact ⟨hl, hr⟩

theorem Applied.of_call {f : Function} {es : List Expr} (h : Applied (.call f es)) :
    f.takes es.length = true ∧ ∀ e ∈ es, Applied e := by
  cases h with
  | call hf hes => exact ⟨hf, hes⟩

end Expr

/-! ### Argument counts -/

theorem Function.takes_iff {f : Function} {n : Nat} :
    f.takes n = true ↔ f.fewest ≤ n ∧ ∀ m ∈ f.most?, n ≤ m := by
  cases h : f.most? <;> simp [Function.takes, h]

/-- A function whose least and greatest number of arguments are the same takes that many. -/
theorem Function.eq_of_takes {f : Function} {n m : Nat} (h : f.takes n = true) (hf : f.fewest = m)
    (hm : f.most? = some m) : n = m := by
  obtain ⟨hle, hge⟩ := takes_iff.mp h
  exact Nat.le_antisymm (hge m hm) (hf ▸ hle)

end MonthlyModel.Formula
