import MonthlyModel.Decimal.Binary
import MonthlyModel.Decimal.Numeral
import MonthlyModel.Proofs.Double.Matching

/-! The sign of a double.

The sign bit of a double is the sign of what it unpacks to. Products and quotients of what has no minus
sign have none, so digits are read as a double without one; and a whole number that is a double at least
zero is not negative, as the negative zero is the only double with a minus sign among them. -/

namespace MonthlyModel.Double

open Float.Model (Format UnpackedFloat)
open Float.Model.UnpackedFloat

/-- An unpacked double without a minus sign. -/
inductive Unsigned : UnpackedFloat → Prop where
  | notANumber : Unsigned .notANumber
  | infinity : Unsigned (.infinity .positive)
  | zero : Unsigned (.zero .positive)
  | finite (m : Nat) (e : Int) (hm : 0 < m) : Unsigned (.finite .positive m e hm)

namespace Unsigned

variable {f : Format} {u v : UnpackedFloat}

theorem roundWithAccuracy (m : Nat) (e : Int) (accuracy : Accuracy) :
    Unsigned (.roundWithAccuracy f .positive m e accuracy) := by
  unfold UnpackedFloat.roundWithAccuracy
  dsimp only
  split
  · exact .zero
  · exact .finite _ _ _

theorem mul (hu : Unsigned u) (hv : Unsigned v) : Unsigned (.mul f u v) := by
  cases hu <;> cases hv <;> first | exact roundWithAccuracy _ _ _ | constructor

theorem div (hu : Unsigned u) (hv : Unsigned v) : Unsigned (.div f u v) := by
  cases hu <;> cases hv <;> first | exact roundWithAccuracy _ _ _ | constructor

theorem ofNat (n : Nat) : Unsigned (.ofNat f n) := by
  unfold UnpackedFloat.ofNat UnpackedFloat.ofInt UnpackedFloat.normalize
  split
  · next h =>
    rw [compare_lt_iff_lt] at h
    omega
  · exact .zero
  · exact roundWithAccuracy _ _ _

theorem ofScientific (m : Nat) (e : Int) : Unsigned (.ofScientific f m e) := by
  unfold UnpackedFloat.ofScientific
  split
  · exact .zero
  · split
    · exact .infinity
    · split
      · exact .zero
      · split
        · exact .mul (.finite _ _ _) (.finite _ _ _)
        · exact .div (.finite _ _ _) (.finite _ _ _)

end Unsigned

/-! ### The sign bit -/

/-- The first bit of a double. -/
def signBit (x : Float) : BitVec 1 :=
  @unpackSign .binary64 x.toBits.toBitVec

theorem isNegative_iff {x : Float} :
    Decimal.isNegative x = true ↔ signBit x = 1#1 := by
  have hlt : x.toBits.toNat < 2 ^ 64 := x.toBits.toNat_lt
  have hshift : x.toBits >>> 63 = 1 ↔ x.toBits.toNat / 2 ^ 63 = 1 := by
    rw [← UInt64.toNat_inj, UInt64.toNat_shiftRight, Nat.shiftRight_eq_div_pow]
    rfl
  have hsign : (signBit x).toNat = x.toBits.toNat / 2 ^ 63 % 2 := by
    simp [signBit, unpackSign, Nat.shiftRight_eq_div_pow]
  rw [Decimal.isNegative, beq_iff_eq, hshift, ← BitVec.toNat_inj, hsign]
  change _ ↔ _ = 1
  omega

theorem unpackSign_packComponents {f : Format} (s : Sign) (e : BitVec f.exponentBits)
    (m : BitVec f.mantissaBitsWithoutImplicit) : unpackSign (packComponents f s e m) = s.toBitVec := by
  ext i hi
  obtain rfl : i = 0 := by omega
  simp [unpackSign, packComponents, BitVec.getLsbD_append, BitVec.getElem_append]

theorem unpackSign_pack {f : Format} {u : UnpackedFloat} (hu : Unsigned u) : unpackSign (pack f u) = 0#1 := by
  cases hu with
  | notANumber | infinity | zero => exact unpackSign_packComponents _ _ _
  | finite m e hm =>
    unfold pack
    dsimp only
    split
    · exact unpackSign_packComponents _ _ _
    · split <;> exact unpackSign_packComponents _ _ _

theorem isNegative_pack {u : UnpackedFloat} (hu : Unsigned u) : Decimal.isNegative (.ofModel (.pack u)) = false := by
  have hbits : signBit (Float.ofModel (.pack u)) = 0#1 := unpackSign_pack hu
  rw [Bool.eq_false_iff, ne_eq, isNegative_iff, hbits]
  decide

theorem unsigned_unpack {x : Float} (h : Decimal.isNegative x = false) : Unsigned x.toModel.unpack := by
  have hsign : Sign.ofBitVec (signBit x) = .positive := by
    rw [Bool.eq_false_iff, ne_eq, isNegative_iff] at h
    rcases BitVec.eq_zero_or_eq_one (signBit x) with hzero | hone
    · rw [hzero]
      rfl
    · exact absurd hone h
  change Unsigned (unpack .binary64 x.toBits.toBitVec)
  unfold unpack
  dsimp only
  change Sign.ofBitVec (unpackSign _) = _ at hsign
  rw [hsign]
  split_ifs <;> constructor

theorem isNegative_mul {x y : Float} (hx : Decimal.isNegative x = false) (hy : Decimal.isNegative y = false) :
    Decimal.isNegative (x * y) = false :=
  isNegative_pack ((unsigned_unpack hx).mul (unsigned_unpack hy))

theorem isNegative_div {x y : Float} (hx : Decimal.isNegative x = false) (hy : Decimal.isNegative y = false) :
    Decimal.isNegative (x / y) = false :=
  isNegative_pack ((unsigned_unpack hx).div (unsigned_unpack hy))

/-! ### Numerals -/

theorem isNegative_nearest (mantissa : Nat) (exponent : Int) : Decimal.isNegative (Decimal.nearest mantissa exponent) = false := by
  have hpowers : ∀ x ∈ Float.exactlyRepresentablePowersOfTen, Decimal.isNegative x = false := by
    decide
  unfold Decimal.nearest Float.ofScientific
  split
  · have hmantissa : Decimal.isNegative mantissa.toUInt64.toFloat = false := isNegative_pack (.ofNat _)
    dsimp only
    split
    · exact isNegative_div hmantissa (hpowers _ (Array.getElem_mem _))
    · exact isNegative_mul hmantissa (hpowers _ (Array.getElem_mem _))
  · exact isNegative_pack (.ofScientific _ _)

/-- A numeral has no sign, so no double that is read from one has. -/
theorem isNegative_numeral? {cs : List Char} {x : Float} (h : Decimal.numeral? cs = some x) :
    Decimal.isNegative x = false := by
  unfold Decimal.numeral? at h
  dsimp only at h
  -- The digits may have a point after them, which makes no difference to the sign.
  split at h
  all_goals
    rcases ite_eq_iff.mp h with ⟨-, h⟩ | ⟨-, h⟩
    · cases h
    · split at h
      · cases h
        exact isNegative_nearest _ _
      · rcases ite_eq_iff.mp h with ⟨-, h⟩ | ⟨-, h⟩
        · obtain ⟨exponent, -, rfl⟩ := Option.map_eq_some_iff.mp h
          exact isNegative_nearest _ _
        · cases h

/-! ### Whole numbers -/

/-- The negative zero is the only double with a minus sign that is not less than zero. -/
theorem eq_negZero {x : Float} (hx : 0 ≤ x) (hsign : Decimal.isNegative x = true) : x = -0 := by
  have hx := le_iff.mp hx
  have hsign : Sign.ofBitVec (signBit x) = .negative := by
    rw [isNegative_iff.mp hsign]
    rfl
  refine eq_of_unpack_eq ?_
  change _ = UnpackedFloat.zero .negative
  change (UnpackedFloat.compare (.zero .positive) (unpack .binary64 x.toBits.toBitVec)).any _ = true at hx
  change unpack .binary64 x.toBits.toBitVec = _
  unfold unpack at hx ⊢
  dsimp only at hx ⊢
  change Sign.ofBitVec (unpackSign _) = _ at hsign
  rw [hsign] at hx ⊢
  split_ifs at hx ⊢
  · cases hx
  · cases hx
  · rfl
  · cases hx
  · cases hx

theorem whole?_negZero : Decimal.whole? (-0) = some 0 := by
  have hzero (q : Int) (narrowBelow : Bool) : (Decimal.Binary.mk 0 q narrowBelow).whole? = some 0 := by
    unfold Decimal.Binary.whole?
    split <;> simp
  have hbinary : Decimal.Binary.ofFloat (-0) = ⟨0, -1074, false⟩ := by decide
  have hfinite : (-0 : Float).isFinite = true := by decide
  rw [Decimal.whole?, hfinite, hbinary, hzero]
  simp

theorem nonneg_of_whole? {x : Float} {k : Int} (hx : 0 ≤ x) (h : Decimal.whole? x = some k) : 0 ≤ k := by
  cases hsign : Decimal.isNegative x with
  | true =>
    rw [eq_negZero hx hsign, whole?_negZero] at h
    cases h
    rfl
  | false =>
    rw [Decimal.whole?, hsign] at h
    rcases ite_eq_iff.mp h with ⟨-, h⟩ | ⟨-, h⟩
    · obtain ⟨_, hmagnitude, rfl⟩ := Option.map_eq_some_iff.mp h
      obtain ⟨n, -, ⟨⟩⟩ := Option.bind_eq_some_iff.mp hmagnitude
      exact Int.natCast_nonneg n
    · cases h

end MonthlyModel.Double
