import MonthlyModel.Timeline

/-!
Display periods: months of a timeline taken together by month, quarter, year or fiscal year. A group
is a run of neighbouring months with the same key, so the groups follow one another and hold every
position once.
-/

namespace MonthlyModel

/-- How months are taken together for display. -/
inductive Granularity where
  | monthly
  | quarterly
  | annual
  /-- Fiscal years that end with a month and are named for the calendar year they end in. -/
  | fiscal (endMonth : Nat)
deriving DecidableEq, Repr

namespace Granularity

/-- The fiscal year of a month: the months after the last one belong to the next year. -/
def fiscalYear (endMonth : Nat) (p : Period) : Int :=
  if endMonth < p.month then Calendar.yearAfter p.year else p.year

/-- Months of one display period have the same key. -/
def key : Granularity → Period → Int
  | .monthly, p => p.ordinal
  | .quarterly, p => 4 * p.year + p.quarter
  | .annual, p => p.year
  | .fiscal endMonth, p => fiscalYear endMonth p

/-- The heading of the display period around a month. -/
def label : Granularity → Period → String
  | .monthly, p => p.label
  | .quarterly, p => s!"Q{p.quarter} {p.year}"
  | .annual, p => toString p.year
  | .fiscal endMonth, p => s!"FY{fiscalYear endMonth p}"

end Granularity

/-- A display period: a heading and the positions of its months. -/
structure PeriodGroup where
  label : String
  indices : List Nat
deriving DecidableEq, Repr

namespace Timeline

/-- The months of a timeline with their positions, in runs of one key. -/
def runs (t : Timeline) (g : Granularity) : List (List (Period × Nat)) :=
  t.periods.zipIdx.splitBy fun a b => g.key a.1 == g.key b.1

/-- The group of a run: the heading is that of its first month. -/
def groupOfRun (g : Granularity) (run : List (Period × Nat)) : PeriodGroup where
  label := (run.head?.map fun m => g.label m.1).getD ""
  indices := run.map (·.2)

/-- The display periods of a timeline. -/
def groupings (t : Timeline) (g : Granularity) : List PeriodGroup :=
  (t.runs g).map (groupOfRun g)

end Timeline

end MonthlyModel
