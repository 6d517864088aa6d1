/-!
Calendar months as points of a line: a period is the number of months since January of year 0, in
the Gregorian calendar extended without end in both directions. Year, month and quarter are read off
that number. A step to the next year is taken in 32 bits; where it fits, the next period is the next
number.
-/

namespace MonthlyModel

namespace Calendar

/-- The years that 32 bits hold. -/
def YearFits (year : Int) : Prop :=
  -2147483648 ≤ year ∧ year ≤ 2147483647

instance (year : Int) : Decidable (YearFits year) :=
  inferInstanceAs (Decidable (_ ∧ _))

/-- The year after another. Years have 32 bits, so after the last one comes the first one. -/
def yearAfter (year : Int) : Int :=
  (year + 1).bmod UInt32.size

theorem yearAfter_eq {year : Int} (h : YearFits (year + 1)) : yearAfter year = year + 1 := by
  obtain ⟨hfirst, hlast⟩ := h
  exact Int.bmod_eq_of_le hfirst (Int.lt_add_one_of_le hlast)

end Calendar

/-- A calendar month. -/
structure Period where
  /-- Months since January of year 0. -/
  ordinal : Int
deriving DecidableEq, Repr

namespace Period

/-- The period of a year and a month that counts from 1. -/
def ofYearMonth (year : Int) (month : Nat) : Period :=
  ⟨12 * year + month - 1⟩

/-- The year, which may be negative. -/
def year (p : Period) : Int :=
  p.ordinal / 12

/-- The month of the year, from 1 to 12. -/
def month (p : Period) : Nat :=
  (p.ordinal % 12).toNat + 1

/-- The calendar quarter, from 1 to 4. -/
def quarter (p : Period) : Nat :=
  (p.month - 1) / 3 + 1

/-- The period that lies `n` months later. -/
def later (p : Period) (n : Nat) : Period :=
  ⟨p.ordinal + n⟩

/-- The period after another. -/
def next (p : Period) : Period :=
  if p.month = 12 then ofYearMonth (Calendar.yearAfter p.year) 1 else p.later 1

/-- The three months of the period's calendar quarter. -/
def quarterMonths (p : Period) : List Period :=
  let first : Period := ⟨p.ordinal / 3 * 3⟩
  [first, first.later 1, first.later 2]

/-- The English abbreviations of the months. -/
def monthNames : List String :=
  ["Jan", "Feb", "Mar", "Apr", "May", "Jun", "Jul", "Aug", "Sep", "Oct", "Nov", "Dec"]

/-- The English abbreviation of the period's month. -/
def monthName (p : Period) : String :=
  monthNames.getD (p.month - 1) ""

/-- A short label such as `Jan 2025`. -/
def label (p : Period) : String :=
  s!"{p.monthName} {p.year}"

theorem year_ofYearMonth {year : Int} {month : Nat} (h : 1 ≤ month) (h' : month ≤ 12) :
    (ofYearMonth year month).year = year := by
  simp only [Period.year, ofYearMonth]
  omega

theorem month_ofYearMonth {year : Int} {month : Nat} (h : 1 ≤ month) (h' : month ≤ 12) :
    (ofYearMonth year month).month = month := by
  simp only [Period.month, ofYearMonth]
  omega

/-- As long as years fit, the next period is the next number. -/
theorem next_eq {p : Period} (h : p.month = 12 → Calendar.YearFits (p.year + 1)) : p.next = p.later 1 := by
  unfold next
  split
  · next hmonth =>
    rw [Calendar.yearAfter_eq (h hmonth)]
    simp only [ofYearMonth, later, Period.year, Period.month, Period.mk.injEq] at *
    omega
  · rfl

theorem ofYearMonth_year_month (p : Period) : ofYearMonth p.year p.month = p := by
  cases p
  simp only [Period.year, Period.month, ofYearMonth, Period.mk.injEq]
  omega

end Period

namespace Calendar

/-- A year is a leap year if four divides it, except for centuries that 400 does not divide. -/
def isLeap (year : Int) : Bool :=
  year % 4 = 0 && (year % 100 ≠ 0 || year % 400 = 0)

/-- The length of a month in the Gregorian calendar. -/
def monthLength (year : Int) (month : Nat) : Nat :=
  if month = 2 then (if isLeap year then 29 else 28)
  else if month = 4 ∨ month = 6 ∨ month = 9 ∨ month = 11 then 30
  else 31

/-- The years whose days are counted; outside of them months and years have nominal lengths. -/
def isCounted (year : Int) : Bool :=
  -262143 ≤ year && year ≤ 262142

/-- The days of a month; one that is not counted has a nominal thirty. -/
def daysInMonth (p : Period) : Nat :=
  -- Days are counted up to the first day of the month after, which has to be in a counted year, too.
  if isCounted p.year && isCounted p.next.year then monthLength p.year p.month else 30

/-- The days of a year; a year that is not counted has a nominal 365. -/
def daysInYear (year : Int) : Nat :=
  if isCounted year && isLeap year then 366 else 365

/-- The days of the three months of a month's quarter. -/
def daysInQuarter (p : Period) : Nat :=
  (p.quarterMonths.map daysInMonth).foldl (· + ·) 0

end Calendar

end MonthlyModel
