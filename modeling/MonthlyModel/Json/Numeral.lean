import MonthlyModel.Decimal.Numeral

/-!
JSON numerals. A numeral without a point and an exponent can be a whole number; every numeral is a
double unless it is too large. The double is computed in double arithmetic: the leading digits that fit
into 64 bits, scaled by a power of ten, so it can be off by a last place.
-/

namespace MonthlyModel.Json

/-- A numeral in its parts, which are digits. -/
structure Numeral where
  isNegative : Bool
  whole : List Char
  /-- What follows the point, if there is one. -/
  fraction : Option (List Char)
  /-- What follows the exponent's letter, if there is one; the first part says whether there is a
  minus sign. -/
  exponent : Option (Bool × List Char)
deriving DecidableEq, Repr

namespace Numeral

/-! ### Reading -/

/-- At least one digit at the front of a text, and the rest. -/
def takeDigits (cs : List Char) : Option (List Char × List Char) :=
  if (cs.takeWhile Decimal.isDigit).isEmpty then none
  else some (cs.takeWhile Decimal.isDigit, cs.dropWhile Decimal.isDigit)

/-- The digits before the point; a leading zero stands alone. -/
def takeWhole : List Char → Option (List Char × List Char)
  | '0' :: cs => some (['0'], cs)
  | cs => takeDigits cs

/-- The digits after the point, if there is one. -/
def takeFraction : List Char → Option (Option (List Char) × List Char)
  | '.' :: cs => (takeDigits cs).map fun (ds, rest) => (some ds, rest)
  | cs => some (none, cs)

/-- The sign in front of a text, and the rest. -/
def takeSign : List Char → Bool × List Char
  | '-' :: cs => (true, cs)
  | '+' :: cs => (false, cs)
  | cs => (false, cs)

/-- The exponent after its letter, if there is one. -/
def takeExponent : List Char → Option (Option (Bool × List Char) × List Char)
  | 'e' :: cs | 'E' :: cs =>
    (takeDigits (takeSign cs).2).map fun (ds, rest) => (some ((takeSign cs).1, ds), rest)
  | cs => some (none, cs)

/-- The unsigned numeral at the front of a text, and the rest. -/
def takeUnsigned (isNegative : Bool) (cs : List Char) : Option (Numeral × List Char) := do
  let (whole, cs) ← takeWhole cs
  let (fraction, cs) ← takeFraction cs
  let (exponent, cs) ← takeExponent cs
  return (⟨isNegative, whole, fraction, exponent⟩, cs)

/-- The numeral at the front of a text, and the rest. -/
def take : List Char → Option (Numeral × List Char)
  | '-' :: cs => takeUnsigned true cs
  | cs => takeUnsigned false cs

theorem length_takeDigits_lt {cs ds rest : List Char} (h : takeDigits cs = some (ds, rest)) :
    rest.length < cs.length := by
  unfold takeDigits at h
  split at h
  · cases h
  · next hne =>
    cases h
    have := congrArg List.length (List.takeWhile_append_dropWhile (p := Decimal.isDigit) (l := cs))
    rw [List.length_append] at this
    have := List.length_pos_iff.2 (mt List.isEmpty_iff.2 hne)
    omega

theorem length_takeWhole_lt {cs ds rest : List Char} (h : takeWhole cs = some (ds, rest)) :
    rest.length < cs.length := by
  unfold takeWhole at h
  split at h
  · cases h
    exact Nat.lt_succ_self _
  · exact length_takeDigits_lt h

theorem length_takeFraction_le {cs rest : List Char} {ds : Option (List Char)}
    (h : takeFraction cs = some (ds, rest)) : rest.length ≤ cs.length := by
  unfold takeFraction at h
  split at h
  · obtain ⟨⟨_, _⟩, h', heq⟩ := Option.map_eq_some_iff.1 h
    cases heq
    exact Nat.le_succ_of_le (Nat.le_of_lt (length_takeDigits_lt h'))
  · cases h
    exact Nat.le_refl _

theorem length_takeSign_le (cs : List Char) : (takeSign cs).2.length ≤ cs.length := by
  unfold takeSign
  split <;> simp

theorem length_takeExponent_le {cs rest : List Char} {e : Option (Bool × List Char)}
    (h : takeExponent cs = some (e, rest)) : rest.length ≤ cs.length := by
  unfold takeExponent at h
  split at h
  · next cs =>
    obtain ⟨⟨_, _⟩, h', heq⟩ := Option.map_eq_some_iff.1 h
    cases heq
    exact Nat.le_succ_of_le (Nat.le_trans (Nat.le_of_lt (length_takeDigits_lt h')) (length_takeSign_le cs))
  · next cs =>
    obtain ⟨⟨_, _⟩, h', heq⟩ := Option.map_eq_some_iff.1 h
    cases heq
    exact Nat.le_succ_of_le (Nat.le_trans (Nat.le_of_lt (length_takeDigits_lt h')) (length_takeSign_le cs))
  · cases h
    exact Nat.le_refl _

theorem length_takeUnsigned_lt {isNegative : Bool} {cs rest : List Char} {n : Numeral}
    (h : takeUnsigned isNegative cs = some (n, rest)) : rest.length < cs.length := by
  unfold takeUnsigned at h
  obtain ⟨⟨_, _⟩, hw, h⟩ := Option.bind_eq_some_iff.1 h
  obtain ⟨⟨_, _⟩, hf, h⟩ := Option.bind_eq_some_iff.1 h
  obtain ⟨⟨_, _⟩, he, h⟩ := Option.bind_eq_some_iff.1 h
  cases h
  have := length_takeWhole_lt hw
  have := length_takeFraction_le hf
  have := length_takeExponent_le he
  omega

/-- A numeral has at least one character. -/
theorem length_take_lt {cs rest : List Char} {n : Numeral} (h : take cs = some (n, rest)) :
    rest.length < cs.length := by
  unfold take at h
  split at h
  · exact Nat.lt_succ_of_lt (length_takeUnsigned_lt h)
  · exact length_takeUnsigned_lt h

/-! ### Values -/

/-- The least number that 64 bits do not hold. -/
def wordEnd : Nat :=
  UInt64.size

/-- The whole number below a limit that a numeral writes, without sign, point and exponent. -/
def natBelow? (n : Numeral) (limit : Nat) : Option Nat :=
  -- Even a zero after the point makes it a double.
  if n.isNegative || n.fraction.isSome || n.exponent.isSome then none
  else if Decimal.ofDigits n.whole < min limit wordEnd then some (Decimal.ofDigits n.whole)
  else none

/-- A number of at most 64 bits times a power of ten. -/
structure Scaled where
  significand : Nat
  exponent : Int

/-- Takes in digits before the point for as long as the significand fits; the others only scale it. -/
def addWhole (s : Scaled) : List Char → Scaled
  | [] => s
  | c :: cs =>
    let next := 10 * s.significand + Decimal.digitValue c
    if next < wordEnd then addWhole { s with significand := next } cs
    else { s with exponent := s.exponent + (c :: cs).length }

/-- Takes in digits after the point for as long as the significand fits; the others are dropped. -/
def addFraction (s : Scaled) : List Char → Scaled
  | [] => s
  | c :: cs =>
    let next := 10 * s.significand + Decimal.digitValue c
    if next < wordEnd then addFraction ⟨next, s.exponent - 1⟩ cs else s

/-- The greatest power of ten among the doubles. -/
def greatestPower : Nat :=
  308

/-- A double divided by powers of ten until the exponent is in reach, and what is left of it. -/
def scaleDown (x : Float) (exponent : Int) : Float × Int :=
  if x == 0 ∨ -(greatestPower : Int) ≤ exponent then (x, exponent)
  else scaleDown (x / Decimal.nearest 1 greatestPower) (exponent + greatestPower)
termination_by (-exponent).toNat
decreasing_by
  simp only [greatestPower] at *
  omega

/-- The double for a scaled number, unless it is too large. -/
def Scaled.toFloat? (s : Scaled) : Option Float :=
  let x := Decimal.nearest s.significand 0
  if s.exponent < 0 then
    let (x, exponent) := scaleDown x s.exponent
    if x == 0 then some x else some (x / Decimal.nearest 1 (-exponent))
  else if x == 0 then some x
  else if greatestPower < s.exponent then none
  else
    let x := x * Decimal.nearest 1 s.exponent
    if x.isInf then none else some x

/-- The least number that a signed word of 32 bits does not hold. -/
def exponentEnd : Nat :=
  Nat.pow 2 31

/-- The magnitude of a numeral as a double, unless it is too large. -/
def magnitude? (n : Numeral) : Option Float :=
  let s := addFraction (addWhole ⟨0, 0⟩ n.whole) (n.fraction.getD [])
  match n.exponent with
  | none => s.toFloat?
  | some (isNegative, ds) =>
    let exponent := Decimal.ofDigits ds
    if exponent < exponentEnd then
      { s with exponent := if isNegative then s.exponent - exponent else s.exponent + exponent }.toFloat?
    else if s.significand = 0 ∨ isNegative then some 0
    else none

/-- A numeral as a double, unless it is too large. -/
def toFloat? (n : Numeral) : Option Float :=
  n.magnitude?.map fun x => if n.isNegative then -x else x

end Numeral

end MonthlyModel.Json
