/-!
Doubles as exact numbers: a finite double is a sign and a magnitude `m * 2 ^ q`. Everything that
prints or rounds a double starts from this form and continues in whole numbers.
-/

namespace MonthlyModel.Decimal

/-- The magnitude of a finite double: `m * 2 ^ q`. -/
structure Binary where
  m : Nat
  q : Int
  /-- The next smaller magnitude is only half as far away as the next larger one. -/
  narrowBelow : Bool
deriving DecidableEq, Repr

/-- The magnitude behind the bits of a finite double. -/
def Binary.ofBits (bits : UInt64) : Binary :=
  let exponent := (bits >>> 52).toNat % 2048
  let fraction := bits.toNat % Nat.pow 2 52
  -- The smallest numbers have no leading bit of their own, and the unit of the numbers next to them.
  if exponent = 0 then ⟨fraction, -1074, false⟩
  else ⟨Nat.pow 2 52 + fraction, exponent - 1075, fraction = 0 && 1 < exponent⟩

/-- The magnitude of a finite double. -/
def Binary.ofFloat (x : Float) : Binary :=
  .ofBits x.toBits

/-- Whether a double carries the minus sign; zero can, too. -/
def isNegative (x : Float) : Bool :=
  x.toBits >>> 63 == 1

/-- A magnitude that is whole, as a whole number. -/
def Binary.whole? (x : Binary) : Option Nat :=
  if 0 ≤ x.q then some (x.m * Nat.pow 2 x.q.toNat)
  else
    let unit := Nat.pow 2 (-x.q).toNat
    if x.m % unit = 0 then some (x.m / unit) else none

/-- A double that is a whole number, as one. NaN and the infinities are none. -/
def whole? (x : Float) : Option Int :=
  if x.isFinite then
    (Binary.ofFloat x).whole?.map fun n => if isNegative x then -(n : Int) else n
  else none

end MonthlyModel.Decimal
