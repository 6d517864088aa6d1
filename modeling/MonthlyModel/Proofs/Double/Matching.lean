import MonthlyModel.Proofs.Double.Bits

/-! Doubles that compare equal.

Equality of doubles is not reflexive, and it takes the two zeros for one number. With what is not a
number matching itself, it differs from being the same double only in the sign of zero. Arithmetic keeps
this apart from dividing by zero, which no formula does, and from raising zero to a negative odd power. -/

namespace MonthlyModel.Double

open Float.Model (Format UnpackedFloat)
open Float.Model.UnpackedFloat

/-! ### Unpacked doubles up to the sign of zero -/

/-- Two unpacked doubles are the same, or both are zero. -/
inductive Similar : UnpackedFloat → UnpackedFloat → Prop where
  | refl (u : UnpackedFloat) : Similar u u
  | zeros (s s' : Sign) : Similar (.zero s) (.zero s')

namespace Similar

variable {f : Format} {u u' v v' w : UnpackedFloat}

theorem symm (h : Similar u v) : Similar v u := by
  cases h with
  | refl => exact .refl _
  | zeros s s' => exact .zeros s' s

theorem trans (h : Similar u v) (h' : Similar v w) : Similar u w := by
  cases h with
  | refl => exact h'
  | zeros =>
    cases h' with
    | refl => exact .zeros _ _
    | zeros => exact .zeros _ _

theorem eq_notANumber (h : Similar .notANumber v) : v = .notANumber := by
  cases h
  rfl

/-- An operation of two operands respects similarity if it respects the zeros on either side. -/
theorem congr₂ {g : UnpackedFloat → UnpackedFloat → UnpackedFloat}
    (left : ∀ s s' v, Similar (g (.zero s) v) (g (.zero s') v))
    (right : ∀ u s s', Similar (g u (.zero s)) (g u (.zero s'))) (hu : Similar u u') (hv : Similar v v') :
    Similar (g u v) (g u' v') := by
  have hleft : Similar (g u v) (g u' v) := by
    cases hu with
    | refl => exact .refl _
    | zeros s s' => exact left s s' v
  have hright : Similar (g u' v) (g u' v') := by
    cases hv with
    | refl => exact .refl _
    | zeros s s' => exact right u' s s'
  exact hleft.trans hright

theorem neg (h : Similar u u') : Similar u.neg u'.neg := by
  cases h with
  | refl => exact .refl _
  | zeros => exact .zeros _ _

theorem abs (h : Similar u u') : Similar u.abs u'.abs := by
  cases h <;> exact .refl _

theorem add : Similar u u' → Similar v v' → Similar (.add f u v) (.add f u' v') := by
  refine congr₂ (fun s s' v => ?_) fun u s s' => ?_
  · cases v with
    | zero t => cases s <;> cases s' <;> cases t <;> exact .zeros _ _
    | _ => exact .refl _
  · cases u with
    | zero t => cases s <;> cases s' <;> cases t <;> exact .zeros _ _
    | _ => exact .refl _

theorem sub : Similar u u' → Similar v v' → Similar (.sub f u v) (.sub f u' v') := by
  refine congr₂ (fun s s' v => ?_) fun u s s' => ?_
  · cases v with
    | zero t => cases s <;> cases s' <;> cases t <;> exact .zeros _ _
    | _ => exact .refl _
  · cases u with
    | zero t => cases s <;> cases s' <;> cases t <;> exact .zeros _ _
    | _ => exact .refl _

theorem mul : Similar u u' → Similar v v' → Similar (.mul f u v) (.mul f u' v') := by
  refine congr₂ (fun s s' v => ?_) fun u s s' => ?_
  · cases v with
    | infinity | notANumber => exact .refl _
    | zero | finite => exact .zeros _ _
  · cases u with
    | infinity | notANumber => exact .refl _
    | zero | finite => exact .zeros _ _

/-- A divisor other than zero divides two zeros to zeros. -/
theorem div (h : Similar u u') (hv : ∀ s, v ≠ .zero s) : Similar (.div f u v) (.div f u' v) := by
  cases h with
  | refl => exact .refl _
  | zeros =>
    cases v with
    | zero s => exact absurd rfl (hv s)
    | notANumber => exact .refl _
    | infinity | finite => exact .zeros _ _

theorem compare (hu : Similar u u') (hv : Similar v v') : u.compare v = u'.compare v' := by
  have hleft : u.compare v = u'.compare v := by
    cases hu with
    | refl => rfl
    | zeros =>
      cases v with
      | infinity t | finite t => cases t <;> rfl
      | notANumber | zero => rfl
  have hright : u'.compare v = u'.compare v' := by
    cases hv with
    | refl => rfl
    | zeros =>
      cases u' with
      | infinity t | finite t => cases t <;> rfl
      | notANumber | zero => rfl
  exact hleft.trans hright

end Similar

theorem similar_of_compare {u v : UnpackedFloat} (h : u.compare v = some .eq) : Similar u v := by
  cases u with
  | notANumber => cases h
  | infinity s =>
    cases v with
    | infinity t => cases s <;> cases t <;> first | exact .refl _ | cases h
    | _ => cases s <;> cases h
  | zero s =>
    cases v with
    | zero t => exact .zeros s t
    | infinity t | finite t => cases t <;> cases h
    | notANumber => cases h
  | finite s m e hm =>
    cases v with
    | finite t m' e' hm' =>
      have heq : ((Ord.compare e e').then (Ord.compare m m')) = .eq → e = e' ∧ m = m' := by
        intro heq
        obtain ⟨he, hm⟩ := Ordering.then_eq_eq.mp heq
        exact ⟨compare_eq_iff_eq.mp he, compare_eq_iff_eq.mp hm⟩
      cases s <;> cases t
      · obtain ⟨rfl, rfl⟩ := heq (by simpa [UnpackedFloat.compare] using h)
        exact .refl _
      · cases h
      · cases h
      · obtain ⟨rfl, rfl⟩ := heq (by simpa [UnpackedFloat.compare] using h)
        exact .refl _
    | infinity t => cases s <;> cases t <;> cases h
    | zero => cases s <;> cases h
    | notANumber => cases s <;> cases h

theorem compare_self {u : UnpackedFloat} (h : u ≠ .notANumber) : u.compare u = some .eq := by
  cases u with
  | notANumber => exact absurd rfl h
  | infinity s => cases s <;> rfl
  | zero s => rfl
  | finite s m e hm => cases s <;> simp [UnpackedFloat.compare]

/-! ### Matching doubles -/

/-- Two doubles compare equal, or both are not a number. -/
def Matches (x y : Float) : Prop :=
  (x == y) = true ∨ x.isNaN = true ∧ y.isNaN = true

instance (x y : Float) : Decidable (Matches x y) :=
  inferInstanceAs (Decidable (_ ∨ _))

theorem beq_iff {x y : Float} : (x == y) = true ↔ x.toModel.unpack.compare y.toModel.unpack = some .eq := by
  change (x.toModel.unpack.compare y.toModel.unpack == some .eq) = true ↔ _
  exact beq_iff_eq

theorem lt_iff {x y : Float} : x < y ↔ x.toModel.unpack.compare y.toModel.unpack = some .lt :=
  decide_eq_true_iff.trans beq_iff_eq

theorem le_iff {x y : Float} : x ≤ y ↔ (x.toModel.unpack.compare y.toModel.unpack).any (·.isLE) = true :=
  decide_eq_true_iff

theorem isNaN_iff {x : Float} : x.isNaN = true ↔ x.toModel.unpack = .notANumber := by
  change x.toModel.unpack.isNaN = true ↔ _
  cases x.toModel.unpack <;> simp [UnpackedFloat.isNaN]

/-- Doubles match if they are the same up to the sign of zero. -/
theorem matches_iff {x y : Float} : Matches x y ↔ Similar x.toModel.unpack y.toModel.unpack := by
  rw [Matches, beq_iff, isNaN_iff, isNaN_iff]
  constructor
  · rintro (h | ⟨hx, hy⟩)
    · exact similar_of_compare h
    · rw [hx, hy]
      exact .refl _
  · intro h
    by_cases hx : x.toModel.unpack = .notANumber
    · rw [hx] at h
      exact .inr ⟨hx, h.eq_notANumber⟩
    · exact .inl (by rw [← Similar.compare (.refl _) h, compare_self hx])

theorem zero_beq : ((0 : Float) == 0) = true := by
  decide

theorem negZero_beq : ((-0 : Float) == 0) = true := by
  decide

namespace Matches

variable {x x' y y' : Float}

theorem refl (x : Float) : Matches x x :=
  matches_iff.mpr (.refl _)

theorem symm (h : Matches x y) : Matches y x :=
  matches_iff.mpr (matches_iff.mp h).symm

theorem trans {z : Float} (h : Matches x y) (h' : Matches y z) : Matches x z :=
  matches_iff.mpr ((matches_iff.mp h).trans (matches_iff.mp h'))

theorem pack {u v : UnpackedFloat} (h : Similar u v) : Matches (.ofModel (.pack u)) (.ofModel (.pack v)) := by
  cases h with
  | refl => exact .refl _
  | zeros s s' =>
    refine matches_iff.mpr ?_
    cases s <;> cases s' <;> exact .zeros _ _

theorem add (h : Matches x x') (h' : Matches y y') : Matches (x + y) (x' + y') :=
  pack ((matches_iff.mp h).add (matches_iff.mp h'))

theorem sub (h : Matches x x') (h' : Matches y y') : Matches (x - y) (x' - y') :=
  pack ((matches_iff.mp h).sub (matches_iff.mp h'))

theorem mul (h : Matches x x') (h' : Matches y y') : Matches (x * y) (x' * y') :=
  pack ((matches_iff.mp h).mul (matches_iff.mp h'))

theorem neg (h : Matches x y) : Matches (-x) (-y) :=
  pack (matches_iff.mp h).neg

theorem abs (h : Matches x y) : Matches x.abs y.abs :=
  pack (matches_iff.mp h).abs

theorem beq (h : Matches x x') (h' : Matches y y') : (x == y) = (x' == y') := by
  rw [Bool.eq_iff_iff, beq_iff, beq_iff, (matches_iff.mp h).compare (matches_iff.mp h')]

theorem lt (h : Matches x x') (h' : Matches y y') : x < y ↔ x' < y' := by
  rw [lt_iff, lt_iff, (matches_iff.mp h).compare (matches_iff.mp h')]

theorem le (h : Matches x x') (h' : Matches y y') : x ≤ y ↔ x' ≤ y' := by
  rw [le_iff, le_iff, (matches_iff.mp h).compare (matches_iff.mp h')]

theorem eq_or_zeros (h : Matches x y) : x = y ∨ x = 0 ∧ y = -0 ∨ x = -0 ∧ y = 0 := by
  have h := matches_iff.mp h
  generalize hu : x.toModel.unpack = u at h
  generalize hv : y.toModel.unpack = v at h
  cases h with
  | refl => exact .inl (eq_of_unpack_eq (hu.trans hv.symm))
  | zeros s s' =>
    cases s <;> cases s'
    · exact .inl (eq_of_unpack_eq (hu.trans hv.symm))
    · exact .inr (.inr ⟨eq_of_unpack_eq hu, eq_of_unpack_eq hv⟩)
    · exact .inr (.inl ⟨eq_of_unpack_eq hu, eq_of_unpack_eq hv⟩)
    · exact .inl (eq_of_unpack_eq (hu.trans hv.symm))

theorem eq_of_ne_zero (h : Matches x y) (hx : ¬ (x == 0) = true) : x = y := by
  obtain h | ⟨rfl, -⟩ | ⟨rfl, -⟩ := h.eq_or_zeros
  · exact h
  · exact absurd zero_beq hx
  · exact absurd negZero_beq hx

theorem div (h : Matches x x') (hy : ¬ (y == 0) = true) : Matches (x / y) (x' / y) := by
  refine pack ((matches_iff.mp h).div fun s hs => hy (beq_iff.mpr ?_))
  rw [hs]
  rfl

end Matches

end MonthlyModel.Double
