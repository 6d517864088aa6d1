import MonthlyModel.Decimal.Binary

/-!
The numbers that series hold. Formulas are evaluated over any type with these operations, so that a
statement about exact numbers and the program's doubles are about one evaluator.
-/

namespace MonthlyModel

/-- What formulas do with numbers. -/
class Arithmetic (α : Type) extends Zero α, One α, Add α, Sub α, Mul α, Neg α where
  /-- The quotient; the evaluator never divides by what equals zero. -/
  quotient : α → α → α
  power : α → α → α
  magnitude : α → α
  smallest : List α → α
  largest : List α → α
  equal : α → α → Bool
  less : α → α → Bool
  atMost : α → α → Bool
  /-- The number that a literal of a formula stands for. -/
  literal : Float → α
  ofNat : Nat → α
  /-- A whole number as such; other numbers are none. -/
  whole? : α → Option Int

/-- One where a condition holds and zero elsewhere. -/
def truth {α : Type} [Zero α] [One α] (b : Bool) : α :=
  if b then 1 else 0

/-- Whether a double is an odd whole number. -/
def isOdd (x : Float) : Bool :=
  (Decimal.whole? x).any (· % 2 = 1)

/-- A zero to a power other than zero. An odd power keeps the sign of the zero; what is not a number
stays. -/
def powerOfZero (zero y : Float) : Float :=
  -- One divided by the zero is the infinity with its sign.
  if y < 0 then if isOdd y then 1 / zero else 1.0 / 0.0
  else if 0 < y then if isOdd y then zero else 0
  else y

/-- The power of two doubles. The powers of zero and the zeroth powers are exact. -/
def power (x y : Float) : Float :=
  if y == 0 then 1
  else if x == 0 then powerOfZero x y
  else Float.pow x y

/-- Doubles. The smallest and the largest of several pass over what is not a number, and of equal
ones they keep the first. -/
instance : Arithmetic Float where
  zero := 0
  one := 1
  quotient := (· / ·)
  power := power
  magnitude := Float.abs
  smallest := List.foldl (fun best x => if x < best then x else best) (1.0 / 0.0)
  largest := List.foldl (fun best x => if best < x then x else best) (-1.0 / 0.0)
  equal := (· == ·)
  less x y := x < y
  atMost x y := x ≤ y
  literal := id
  ofNat := Float.ofNat
  whole? := Decimal.whole?

/-- A series: one value for each month. -/
abbrev Series (α : Type) := List α

end MonthlyModel
