import MonthlyModel.Calendar

/-!
Timelines: the months that every series of a model has one value for. The months of a timeline
increase strictly, and may leave gaps. A timeline knows where its years start and derives the time
constants, which are functions of the month alone.
-/

namespace MonthlyModel

/-- What keeps months from being a timeline. -/
inductive TimelineError where
  | month (month : Nat)
  | order (first second : Period)
deriving DecidableEq, Repr

/-- The error as a user reads it. -/
def TimelineError.message : TimelineError → String
  | .month m => s!"Invalid timeline: month {m} out of range"
  | .order p q => s!"Invalid timeline: periods out of order: {p.label} then {q.label}"

/-- The period of a year and a month, which must be one of the twelve. -/
def Period.ofYearMonth? (year : Int) (month : Nat) : Except TimelineError Period :=
  if 1 ≤ month ∧ month ≤ 12 then .ok (.ofYearMonth year month) else .error (.month month)

/-- Strictly increasing months. -/
structure Timeline where
  periods : List Period
  increasing : periods.Pairwise (·.ordinal < ·.ordinal)
deriving DecidableEq

namespace Timeline

/-- The timeline without months. -/
def empty : Timeline :=
  ⟨[], .nil⟩

instance : Inhabited Timeline :=
  ⟨empty⟩

/-- The number of months. -/
def length (t : Timeline) : Nat :=
  t.periods.length

theorem pairwise_later (first : Period) (count : Nat) :
    ((List.range count).map first.later).Pairwise (·.ordinal < ·.ordinal) := by
  rw [List.pairwise_map]
  exact List.pairwise_lt_range.imp fun h => by simp only [Period.later]; omega

/-- `count` months in a row from `first` on. -/
def consecutive (first : Period) (count : Nat) : Timeline where
  periods := (List.range count).map first.later
  increasing := pairwise_later first count

/-- As long as years fit, months in a row are found by going from each to the next one. -/
theorem periods_consecutive_succ {first : Period} (h : first.month = 12 → Calendar.YearFits (first.year + 1))
    (count : Nat) : (consecutive first (count + 1)).periods = first :: (consecutive first.next count).periods := by
  have hlater (n : Nat) : first.next.later n = first.later (n + 1) := by
    rw [Period.next_eq h]
    simp only [Period.later, Period.mk.injEq]
    omega
  have hfirst : first.later 0 = first := by simp [Period.later]
  simp [consecutive, List.range_succ_eq_map, hfirst, hlater]

/-- `count` months in a row from a month of a year on; the month is checked even if `count` is 0. -/
def monthly (year : Int) (month : Nat) (count : Nat) : Except TimelineError Timeline :=
  (Period.ofYearMonth? year month).map (consecutive · count)

/-- The first two neighbours of which the second is not later. -/
def disorder? : List Period → Option (Period × Period)
  | p :: q :: rest => if p.ordinal < q.ordinal then disorder? (q :: rest) else some (p, q)
  | _ => none

theorem pairwise_of_disorder?_eq_none {ps : List Period} (h : disorder? ps = none) :
    ps.Pairwise (·.ordinal < ·.ordinal) := by
  fun_induction disorder? ps with
  | case1 p q rest hpq ih =>
    have hrest := ih h
    refine List.pairwise_cons.2 ⟨fun r hr => ?_, hrest⟩
    rcases List.mem_cons.1 hr with rfl | hr
    · exact hpq
    · exact Int.lt_trans hpq ((List.pairwise_cons.1 hrest).1 r hr)
  | case2 => simp at h
  | case3 ps hps =>
    match ps, hps with
    | [], _ => exact .nil
    | [p], _ => exact List.pairwise_singleton ..
    | p :: q :: rest, hps => exact absurd rfl (hps p q rest)

/-- A timeline of given months, which must increase. -/
def ofPeriods (ps : List Period) : Except TimelineError Timeline :=
  match h : disorder? ps with
  | none => .ok ⟨ps, pairwise_of_disorder?_eq_none h⟩
  | some (p, q) => .error (.order p q)

/-- A timeline of given years and months. A month that does not exist is reported before months
that are out of order. -/
def ofMonths (months : List (Int × Nat)) : Except TimelineError Timeline := do
  ofPeriods (← months.mapM fun (year, month) => Period.ofYearMonth? year month)

/-- The labels of the months. -/
def labels (t : Timeline) : List String :=
  t.periods.map Period.label

/-- For every month whether it opens a new year, given the year before the first of them. -/
def newYears (before : Option Int) : List Period → List Bool
  | [] => []
  | p :: rest => (before != some p.year) :: newYears (some p.year) rest

/-- For every month whether accumulation by year starts anew there. -/
def yearStarts (t : Timeline) : List Bool :=
  newYears none t.periods

/-- Whether position `i` opens a year. The first position does so even without months; the ends of
a timeline open nothing else. -/
def isYearStart (t : Timeline) (i : Nat) : Bool :=
  i = 0 || t.yearStarts.getD i false

end Timeline

/-- The series that every timeline provides. -/
inductive TimeConstant where
  | daysInMonth
  | daysInYear
  | daysInQuarter
  | monthsInYear
  | monthsInQuarter
  | quartersInYear
deriving DecidableEq, Repr

namespace TimeConstant

/-- All time constants. -/
def all : List TimeConstant :=
  [.daysInMonth, .daysInYear, .daysInQuarter, .monthsInYear, .monthsInQuarter, .quartersInYear]

/-- The name after `T.` in formulas. -/
def name : TimeConstant → String
  | .daysInMonth => "DiM"
  | .daysInYear => "DiY"
  | .daysInQuarter => "DiQ"
  | .monthsInYear => "MiY"
  | .monthsInQuarter => "MiQ"
  | .quartersInYear => "QiY"

/-- The time constant of a name. -/
def ofName? (name : String) : Option TimeConstant :=
  all.find? (·.name == name)

/-- The value in a month. -/
def value (c : TimeConstant) (p : Period) : Nat :=
  match c with
  | .daysInMonth => Calendar.daysInMonth p
  | .daysInYear => Calendar.daysInYear p.year
  | .daysInQuarter => Calendar.daysInQuarter p
  | .monthsInYear => 12
  | .monthsInQuarter => 3
  | .quartersInYear => 4

end TimeConstant

/-- The series of a time constant over a timeline. -/
def Timeline.constant (t : Timeline) (c : TimeConstant) : List Nat :=
  t.periods.map c.value

end MonthlyModel
