import MonthlyModel.Proofs.Double.Matching
import MonthlyModel.Proofs.Formula.Congruence

/-! Arithmetic of doubles that compare equal.

Matching doubles have matching sums, products, quotients and whatever else formulas make of them. The
only exception are powers, and among these only the powers of zero with negative odd exponents, which are
infinite and have the sign of the zero. -/

namespace MonthlyModel.Double

open Formula (Congruence)
open Relator

variable {x x' y y' : Float}

theorem choice_matches {p : Float → Float → Prop} [DecidableRel p] (hp : (Matches ⇒ Matches ⇒ Iff) p p) :
    (Matches ⇒ Matches ⇒ Matches) (fun best x => if p best x then x else best) fun best x => if p best x then x else best := by
  intro b b' hb x x' hx
  dsimp only
  by_cases h : p b x
  · rw [if_pos h, if_pos ((hp hb hx).mp h)]
    exact hx
  · rw [if_neg h, if_neg fun h' => h ((hp hb hx).mpr h')]
    exact hb

theorem whole?_eq (h : Matches x y) : Decimal.whole? x = Decimal.whole? y := by
  obtain rfl | ⟨rfl, rfl⟩ | ⟨rfl, rfl⟩ := h.eq_or_zeros
  · rfl
  · decide +kernel
  · decide +kernel

/-- Formulas that raise nothing to a power do not tell matching doubles apart. -/
theorem congruence : Congruence Matches where
  refl := .refl
  add _ _ hx _ _ hy := hx.add hy
  sub _ _ hx _ _ hy := hx.sub hy
  mul _ _ hx _ _ hy := hx.mul hy
  neg _ _ hx := hx.neg
  quotient hx hy hne := by
    obtain rfl := hy.eq_of_ne_zero hne
    exact hx.div hne
  magnitude _ _ hx := hx.abs
  smallest _ _ h := List.rel_foldl (choice_matches fun _ _ hb _ _ hx => hx.lt hb) (.refl _) h
  largest _ _ h := List.rel_foldl (choice_matches fun _ _ hb _ _ hx => hb.lt hx) (.refl _) h
  equal _ _ hx _ _ hy := hx.beq hy
  less _ _ hx _ _ hy := decide_eq_decide.mpr (hx.lt hy)
  atMost _ _ hx _ _ hy := decide_eq_decide.mpr (hx.le hy)
  whole? _ _ h := whole?_eq h

/-! ### Powers -/

theorem power_of_zero_exponent (hy : (y == 0) = true) (x : Float) : power x y = 1 :=
  if_pos hy

theorem power_of_zero (hx : (x == 0) = true) (hy : ¬ (y == 0) = true) : power x y = powerOfZero x y := by
  rw [power, if_neg hy, if_pos hx]

theorem powerOfZero_matches (h : y < 0 → ¬ isOdd y = true) : Matches (powerOfZero 0 y) (powerOfZero (-0) y) := by
  unfold powerOfZero
  by_cases hneg : y < 0
  · simp only [if_pos hneg, if_neg (h hneg)]
    exact .refl _
  · simp only [if_neg hneg]
    split
    · split
      · exact .symm (.inl negZero_beq)
      · exact .refl _
    · exact .refl _

/-- Powers of what matches match, if a zero that is raised to a negative odd number has its sign on both
    sides. -/
theorem power_matches (hx : Matches x x') (hy : Matches y y')
    (h : (x == 0) = true → y < 0 → isOdd y = true → Decimal.isNegative x' = Decimal.isNegative x) :
    Matches (power x y) (power x' y') := by
  have hsigns : Decimal.isNegative 0 ≠ Decimal.isNegative (-0) := by decide +kernel
  by_cases hzero : (y == 0) = true
  · rw [power_of_zero_exponent hzero, power_of_zero_exponent (hy.beq (.refl 0) ▸ hzero)]
    exact .refl 1
  · obtain rfl := hy.eq_of_ne_zero hzero
    obtain rfl | ⟨rfl, rfl⟩ | ⟨rfl, rfl⟩ := hx.eq_or_zeros
    · exact .refl _
    · rw [power_of_zero zero_beq hzero, power_of_zero negZero_beq hzero]
      exact powerOfZero_matches fun hneg hodd => hsigns (h zero_beq hneg hodd).symm
    · rw [power_of_zero zero_beq hzero, power_of_zero negZero_beq hzero]
      exact (powerOfZero_matches fun hneg hodd => hsigns (h negZero_beq hneg hodd)).symm

end MonthlyModel.Double
