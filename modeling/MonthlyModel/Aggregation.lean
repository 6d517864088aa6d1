import MonthlyModel.Timeline.Grouping

/-!
Aggregation of monthly values into display periods. A measure says what a coarser period shows:
flows add up, a balance shows its last month and an opening balance its first. The total of a series
follows the same rule over the display periods. All is said for any numbers that can be added.
-/

namespace MonthlyModel

/-- How the values of a calculation combine over time. -/
inductive Measure where
  | flow
  | stock
  | openingStock
deriving DecidableEq, Repr, Inhabited

/-- A display period with its value. -/
structure AggregatedPeriod (α : Type) where
  label : String
  value : α
deriving Repr

/-- A series in display periods. -/
structure Aggregation (α : Type) where
  periods : List (AggregatedPeriod α)
  total : α
deriving Repr

namespace Measure

variable {α : Type} [Zero α] [Add α]

/-- The value that stands for several in a row; nothing stands for no value but zero. -/
def combine (m : Measure) (values : List α) : α :=
  match m with
  | .flow => values.foldl (· + ·) 0
  | .stock => values.getLastD 0
  | .openingStock => values.headD 0

/-- The value of a display period. Positions past the end of the series read as zero. -/
def aggregatePeriod (m : Measure) (values : List α) (indices : List Nat) : α :=
  m.combine (indices.map fun i => values.getD i 0)

/-- A series in display periods, with its total. -/
def aggregate (m : Measure) (values : List α) (groups : List PeriodGroup) : Aggregation α :=
  let periods := groups.map fun g => ⟨g.label, m.aggregatePeriod values g.indices⟩
  ⟨periods, m.combine (periods.map (·.value))⟩

end Measure

end MonthlyModel
