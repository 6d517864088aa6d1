import Mathlib
import MonthlyModel.Proofs.Sheet.Meaning

/-! Rational numbers as exact numbers. A double stands for the decimal that is written for it, and
numerals in cells are read as decimals. -/

namespace MonthlyModel

/-- The decimal that is written for a double. -/
def decimalOf (x : Float) : ℚ :=
  let d := (Decimal.Binary.ofFloat x).shortest
  (if Decimal.isNegative x then -1 else 1) * (d.digits * 10 ^ d.exponent)

/-- Rational numbers. Powers with fractions as exponents are left out. -/
instance : Arithmetic ℚ where
  zero := 0
  one := 1
  quotient := (· / ·)
  power x y := if y.isInt then x ^ y.num else 0
  magnitude x := if x < 0 then -x else x
  smallest xs := xs.foldl min (xs.headD 0)
  largest xs := xs.foldl max (xs.headD 0)
  equal x y := x = y
  less x y := x < y
  atMost x y := x ≤ y
  literal := decimalOf
  ofNat n := n
  whole? x := if x.isInt then some x.num else none

namespace Sheet

theorem exact_rat : Exact ℚ where
  zero_add := zero_add
  add_comm := add_comm
  add_assoc := add_assoc
  add_sub_cancel := add_sub_cancel_right
  mul_zero := mul_zero
  mul_one := mul_one
  one_mul := one_mul
  mul_add := mul_add
  ofNat_zero := Nat.cast_zero
  ofNat_succ := Nat.cast_succ

namespace Spreadsheet

/-- The decimal that a numeral writes. -/
def decimal (cs : List Char) : ℚ :=
  let places := (cs.dropWhile Decimal.isDigit).drop 1
  Decimal.ofDigits (cs.takeWhile Decimal.isDigit ++ places) / 10 ^ places.length

/-- A spreadsheet over rational numbers. -/
def rational (cell : String → Nat → Nat → ℚ) : Spreadsheet ℚ :=
  ⟨cell, decimal⟩

theorem counts_rational (cell : String → Nat → Nat → ℚ) : (rational cell).Counts := by
  intro n
  have hdigits := Decimal.isDigit_of_mem_digits n
  have htake : (Decimal.digits n).takeWhile Decimal.isDigit = Decimal.digits n :=
    List.takeWhile_eq_self_iff.mpr hdigits
  have hdrop : (Decimal.digits n).dropWhile Decimal.isDigit = [] := List.dropWhile_eq_nil_iff.mpr hdigits
  change decimal (Decimal.digits n) = (n : ℚ)
  simp [decimal, htake, hdrop, Decimal.ofDigits_digits]

theorem value_intDigits_rational (cell : String → Nat → Nat → ℚ) (column : Nat) (n : Int) :
    (rational cell).value column (signed (Decimal.intDigits n)) = .number (n : ℚ) := by
  obtain ⟨k, rfl | rfl⟩ := n.eq_nat_or_neg
  · exact value_intDigits (counts_rational cell) k
  · rcases k.eq_zero_or_pos with rfl | hk
    · exact value_intDigits (counts_rational cell) 0
    · have hdigits : (rational cell).value column (.numeral (Decimal.digits k)) = .number (k : ℚ) :=
        congrArg Value.number (counts_rational cell k)
      rw [Decimal.intDigits, if_pos (by omega), Int.natAbs_neg, Int.natAbs_natCast, signed, value, hdigits]
      simp [Value.scalar, Value.ofOption]

/-- A double that is a whole number, and is written like one, is the same everywhere. -/
theorem agrees_rational {cell : String → Nat → Nat → ℚ} {x : Float} {n : Int}
    (htext : numberText x = Decimal.intDigits n) (hx : decimalOf x = n) (hneg : decimalOf (-x) = -n)
    (hone : (x == 1) = true → n = 1) (hwhole : Decimal.whole? x = some n) : (rational cell).Agrees x := by
  refine ⟨fun _ column => ?_, ?_, fun h => ?_, ?_⟩
  · rw [htext, value_intDigits_rational]
    exact congrArg Value.number hx.symm
  · exact hneg.trans (congrArg (- ·) hx.symm)
  · exact hx.trans (by rw [hone h, Int.cast_one])
  · change (if (decimalOf x).isInt then some (decimalOf x).num else none) = _
    rw [hx, hwhole]
    simp [Rat.isInt]

end Spreadsheet

end Sheet

end MonthlyModel
