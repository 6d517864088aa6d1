import MonthlyModel.Arithmetic

/-!
What temporal functions do to a whole series: running folds, running folds that start anew with every
year, and shifts in time. Each gives a series of the length that it was given.
-/

namespace MonthlyModel.Formula

variable {α : Type}

/-- The values that a fold passes through, the first value folded into `start`. -/
def running (op : α → α → α) (start : α) : Series α → Series α
  | [] => []
  | x :: xs => op start x :: running op (op start x) xs

/-- A running fold that goes back to `start` at every month that opens a year. -/
def runningByYear (op : α → α → α) (start : α) (yearStarts : List Bool) (xs : Series α) : Series α :=
  go start (yearStarts.zip xs)
where
  go (acc : α) : List (Bool × α) → Series α
    | [] => []
    | (opensYear, x) :: rest =>
      let acc := op (if opensYear then start else acc) x
      acc :: go acc rest

/-- One more for a value that is not zero. -/
def countStep [Arithmetic α] (count x : α) : α :=
  if Arithmetic.equal x 0 then count else count + 1

/-- Every value `n` months later; zero before the first. -/
def delay [Zero α] (xs : Series α) (n : Nat) : Series α :=
  List.replicate (min n xs.length) 0 ++ xs.take (xs.length - n)

/-- Every value `n` months earlier; zero after the last. -/
def advance [Zero α] (xs : Series α) (n : Nat) : Series α :=
  xs.drop n ++ List.replicate (min n xs.length) 0

/-- Every value a number of months later, or earlier if the number is negative. -/
def shift [Zero α] (xs : Series α) (offset : Int) : Series α :=
  if 0 ≤ offset then delay xs offset.toNat else advance xs (-offset).toNat

theorem length_delay [Zero α] (xs : Series α) (n : Nat) : (delay xs n).length = xs.length := by
  simp [delay]
  omega

theorem length_advance [Zero α] (xs : Series α) (n : Nat) : (advance xs n).length = xs.length := by
  simp [advance]
  omega

end MonthlyModel.Formula
