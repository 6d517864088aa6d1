import MonthlyModel.Text

/-!
The functions of formulas: their names and the argument counts they take. Elementwise functions see
one month at a time, temporal ones the whole series.
-/

namespace MonthlyModel.Formula

/-- Functions of one or more series. -/
inductive Function where
  | abs
  | count
  | cumprod
  | cumprodByYear
  | cumsum
  | cumsumByYear
  | max
  | min
  | prevsum
  | prevval
  | shift
deriving DecidableEq, Repr

namespace Function

/-- All functions, by name. -/
def all : List Function :=
  [.abs, .count, .cumprod, .cumprodByYear, .cumsum, .cumsumByYear, .max, .min, .prevsum, .prevval, .shift]

/-- The name of a function in formulas. -/
def name : Function → String
  | .abs => "ABS"
  | .count => "COUNT"
  | .cumprod => "CUMPROD"
  | .cumprodByYear => "CUMPROD_Y"
  | .cumsum => "CUMSUM"
  | .cumsumByYear => "CUMSUM_Y"
  | .max => "MAX"
  | .min => "MIN"
  | .prevsum => "PREVSUM"
  | .prevval => "PREVVAL"
  | .shift => "SHIFT"

/-- The function of a name, whatever its case. -/
def ofName? (cs : List Char) : Option Function :=
  all.find? fun f => f.name.toList == Text.upperText cs

/-- The least number of arguments. -/
def fewest : Function → Nat
  | .shift => 2
  | _ => 1

/-- The greatest number of arguments, if there is one. -/
def most? : Function → Option Nat
  | .max | .min => none
  | .shift => some 2
  | _ => some 1

/-- Whether the function needs the whole series and not only the values of a month. -/
def isTemporal : Function → Bool
  | .abs | .max | .min => false
  | _ => true

/-- Whether the function takes that many arguments. -/
def takes (f : Function) (count : Nat) : Bool :=
  f.fewest ≤ count && f.most?.all (count ≤ ·)

end Function

end MonthlyModel.Formula
