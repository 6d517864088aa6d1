import Mathlib
import MonthlyModel.Arithmetic

/-! What a double consists of.

A double is an infinity, no number, a zero, or a sign with a mantissa and an exponent. Two doubles for
which these are the same are one double, down to the bits. -/

namespace MonthlyModel.Double

open Float.Model (Format UnpackedFloat)
open Float.Model.UnpackedFloat

variable {b b' : BitVec Format.binary64.numBits}

/-- A double has no bits besides those of its sign, its exponent and its mantissa. -/
theorem eq_of_fields (hs : unpackSign b = unpackSign b') (he : unpackExponent b = unpackExponent b')
    (hm : unpackMantissa b = unpackMantissa b') : b = b' := by
  have hfields (v : BitVec 64) : v.extractLsb' 63 1 ++ (v.extractLsb' 52 11 ++ v.extractLsb' 0 52) = v := by
    have hlow : v.extractLsb' 52 11 ++ v.extractLsb' 0 52 = v.extractLsb' 0 63 :=
      BitVec.extractLsb'_append_extractLsb'_eq_extractLsb' rfl
    rw [hlow]
    exact BitVec.extractLsb'_append_extractLsb' (w := 1)
  have hs' : b.extractLsb' 63 1 = b'.extractLsb' 63 1 := hs
  have he' : b.extractLsb' 52 11 = b'.extractLsb' 52 11 := he
  have hm' : b.extractLsb' 0 52 = b'.extractLsb' 0 52 := hm
  have h := hfields b
  rw [hs', he', hm'] at h
  exact h.symm.trans (hfields b')

theorem toNat_implicit (m : BitVec 52) : (1#1 ++ m).toNat = 2 ^ 52 + m.toNat := by
  rw [BitVec.toNat_append, ← Nat.shiftLeft_add_eq_or_of_lt m.isLt]
  rfl

theorem ofBitVec_inj : ∀ v v' : BitVec 1, Sign.ofBitVec v = .ofBitVec v' → v = v' := by
  have h : ∀ v : BitVec 1, (Sign.ofBitVec v).toBitVec = v := by decide
  intro v v' hv
  rw [← h v, hv, h]

theorem unpack_inj (hv : Format.binary64.Valid b) (hv' : Format.binary64.Valid b')
    (h : unpack .binary64 b = unpack .binary64 b') : b = b' := by
  have hlt : (unpackMantissa b).toNat < 2 ^ 52 := (unpackMantissa b).isLt
  have hlt' : (unpackMantissa b').toNat < 2 ^ 52 := (unpackMantissa b').isLt
  unfold unpack at h
  dsimp only at h
  -- What remains are the pairs of one kind, and a mantissa with and one without its implicit bit.
  split_ifs at h <;>
    simp only [UnpackedFloat.infinity.injEq, UnpackedFloat.zero.injEq, UnpackedFloat.finite.injEq] at h
  · next he hm he' hm' => exact eq_of_fields (ofBitVec_inj _ _ h) (he.trans he'.symm) (hm.trans hm'.symm)
  · next he hm he' hm' => exact (hv.eq_packedNaN he hm).trans (hv'.eq_packedNaN he' hm').symm
  · next _ he hm _ he' hm' => exact eq_of_fields (ofBitVec_inj _ _ h) (he.trans he'.symm) (hm.trans hm'.symm)
  · next _ he _ _ he' _ => exact eq_of_fields (ofBitVec_inj _ _ h.1) (he.trans he'.symm) (BitVec.eq_of_toNat_eq h.2.1)
  · have := h.2.1
    rw [toNat_implicit] at this
    omega
  · have := h.2.1
    rw [toNat_implicit] at this
    omega
  · rw [toNat_implicit, toNat_implicit] at h
    exact eq_of_fields (ofBitVec_inj _ _ h.1) (BitVec.eq_of_toNat_eq (by omega)) (BitVec.eq_of_toNat_eq (by omega))

theorem eq_of_unpack_eq {x y : Float} (h : x.toModel.unpack = y.toModel.unpack) : x = y := by
  obtain ⟨⟨⟨bits⟩, hx⟩⟩ := x
  obtain ⟨⟨⟨bits'⟩, hy⟩⟩ := y
  obtain rfl : bits = bits' := unpack_inj hx hy h
  rfl

end MonthlyModel.Double
