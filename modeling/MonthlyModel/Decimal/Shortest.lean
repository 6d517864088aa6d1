import MonthlyModel.Decimal.Digits
import MonthlyModel.Decimal.Binary

/-!
The shortest decimal text of a double: the fewest digits that read back as the same double and, of
those, the nearest to it, always written out in positions and never with an exponent.

The reals that read back as a double form an interval around it. A decimal with its last digit at
place `10 ^ e` is a point of the grid of multiples of `10 ^ e`; if that grid meets the interval, it
does so at one of the two grid points next to the double. The coarsest grid that meets it has the
fewest digits.
-/

namespace MonthlyModel.Decimal

/-- The decimal `digits * 10 ^ exponent`. -/
structure Scaled where
  digits : Nat
  exponent : Int
deriving DecidableEq, Repr

/-- The point of the grid `10 ^ e` that stands for the double, if there is one: of the two neighbours
that read back the nearer, and of two equally near ones the larger. -/
def Binary.onGrid? (x : Binary) (e : Int) : Option Scaled :=
  -- With this unit all ends are whole: the double is `4 m * 2 ^ j`. Divided by the unit of the grid, a
  -- number `n * 2 ^ j` is `n * above / below`.
  let j := x.q - 2
  let above := Nat.pow 2 j.toNat * Nat.pow 10 (-e).toNat
  let below := Nat.pow 2 (-j).toNat * Nat.pow 10 e.toNat
  let value := 4 * x.m * above
  let lowest := (if x.narrowBelow then 4 * x.m - 1 else 4 * x.m - 2) * above
  let highest := (4 * x.m + 2) * above
  let readsBack (d : Nat) : Bool :=
    let point := d * below
    -- An end lies halfway to the next double and is read as the even one of the two.
    if x.m % 2 = 0 then lowest ≤ point && point ≤ highest else lowest < point && point < highest
  let lower := value / below
  let upper := lower + 1
  match readsBack lower, readsBack upper with
  | true, true => some ⟨if 2 * value < (lower + upper) * below then lower else upper, e⟩
  | true, false => some ⟨lower, e⟩
  | false, true => some ⟨upper, e⟩
  | false, false => none

/-- A power of ten above the magnitude: from the binary logarithm, with `log₁₀ 2 ≈ 0.30103`. -/
def Binary.topPlace (x : Binary) : Int :=
  ((x.m.log2 + 1 + x.q) * 30103) / 100000 + 1

/-- The exact decimal value of a magnitude. -/
def Binary.exact (x : Binary) : Scaled :=
  if 0 ≤ x.q then ⟨x.m * Nat.pow 2 x.q.toNat, 0⟩ else ⟨x.m * Nat.pow 5 (-x.q).toNat, x.q⟩

/-- The shortest decimal of a magnitude. Seventeen digits always read back, so the first twenty
places from the top hold it. -/
def Binary.shortest (x : Binary) : Scaled :=
  ((List.range 20).findSome? fun (i : Nat) => x.onGrid? (x.topPlace - i)).getD x.exact

/-- A decimal written out in positions. -/
def Scaled.text (d : Scaled) : List Char :=
  let cs := Decimal.digits d.digits
  if 0 ≤ d.exponent then cs ++ List.replicate d.exponent.toNat '0'
  else
    let places := (-d.exponent).toNat
    if places < cs.length then cs.take (cs.length - places) ++ '.' :: cs.drop (cs.length - places)
    else '0' :: '.' :: List.replicate (places - cs.length) '0' ++ cs

/-- A double as the program writes it: shortest digits in positions, a minus sign also for the
negative zero, and names for what is no finite number. -/
def text (x : Float) : String :=
  if x.isNaN then "NaN"
  else
    let magnitude :=
      if x.isInf then "inf".toList
      else
        let b := Binary.ofFloat x
        if b.m = 0 then ['0'] else b.shortest.text
    String.ofList (if isNegative x then '-' :: magnitude else magnitude)

end MonthlyModel.Decimal
