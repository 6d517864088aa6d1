import MonthlyModel.Decimal.Digits
import MonthlyModel.Decimal.Binary

/-!
Doubles with a fixed number of decimal places. The exact value is rounded once, to the nearest
decimal of that many places; a value halfway between two of them goes to the even one.
-/

namespace MonthlyModel.Decimal

/-- The whole number nearest to `num / den`; halfway it is the even one. -/
def roundHalfEven (num den : Nat) : Nat :=
  let quotient := num / den
  let rest := num % den
  if 2 * rest < den then quotient
  else if den < 2 * rest then quotient + 1
  else quotient + quotient % 2

/-- A magnitude in units of `10 ^ -places`, rounded to a whole number. -/
def Binary.inPlaces (x : Binary) (places : Nat) : Nat :=
  roundHalfEven (x.m * Nat.pow 2 x.q.toNat * Nat.pow 10 places) (Nat.pow 2 (-x.q).toNat)

/-- A count of `10 ^ -places` written with a point before the last `places` digits. -/
def pointed (n places : Nat) : List Char :=
  let fraction := Decimal.digits (n % Nat.pow 10 places)
  Decimal.digits (n / Nat.pow 10 places) ++
    if places = 0 then [] else '.' :: List.replicate (places - fraction.length) '0' ++ fraction

/-- A double with a fixed number of decimal places. -/
def fixed (x : Float) (places : Nat) : String :=
  if x.isNaN then "NaN"
  else
    let magnitude :=
      if x.isInf then "inf".toList else pointed ((Binary.ofFloat x).inPlaces places) places
    String.ofList (if isNegative x then '-' :: magnitude else magnitude)

end MonthlyModel.Decimal
