import MonthlyModel.Dependency.Order
import MonthlyModel.Model.Error
import MonthlyModel.Model.Roster

/-!
The state of a model: a timeline, the bound series, and the calculations with their latest results.
Revisions stand for what a formula has read: the clock ticks whenever a binding or a result changes,
and its new time becomes the revision of what changed. The memo of a calculation keeps what its result
was computed from.
-/

namespace MonthlyModel

/-- How a model recomputes. -/
structure ModelOptions where
  /-- Keep the result of a calculation whose formula and readings have not changed. -/
  memoizes : Bool
  /-- Evaluate all calculations on every recompute. -/
  recomputesAll : Bool
deriving DecidableEq, Repr

/-- Memos are used, and only pending calculations are evaluated. -/
def ModelOptions.standard : ModelOptions :=
  ⟨true, false⟩

/-- A model: inputs, calculations and their results. -/
structure Model where
  timeline : Timeline
  series : SeriesMap Float
  options : ModelOptions
  roster : Roster
  graph : Dependency.Graph
  inputRevisions : Std.TreeMap Reference Nat
  clock : Nat
  /-- The calculations whose results are out of date. -/
  pending : Std.TreeSet CalculationId

namespace Model

/-- A model without calculations that binds the time constants. -/
def new (t : Timeline) (o : ModelOptions) : Model where
  timeline := t
  series := .ofTimeline t
  options := o
  roster := .empty
  graph := .empty
  inputRevisions := ∅
  clock := 0
  pending := ∅

instance : Inhabited Model :=
  ⟨new .empty .standard⟩

/-- A model over bound series, to which the time constants are added. -/
def ofSeries (t : Timeline) (m : SeriesMap Float) (o : ModelOptions) : Except ModelError Model :=
  match m.withConstants t with
  | .ok series => .ok { new t o with series := series }
  | .error e => .error (.length e)

/-- The number of months. -/
def periods (m : Model) : Nat :=
  m.timeline.length

/-- The calculations with their results, the oldest first. -/
def entries (m : Model) : List Entry :=
  m.roster.entries

/-- The calculation with an identifier, and its latest result. -/
def entry? (m : Model) (id : CalculationId) : Option Entry :=
  m.roster.find? id

/-- Whether there is a calculation with an identifier. -/
def contains (m : Model) (id : CalculationId) : Bool :=
  m.roster.contains id

/-- The calculation with an identifier, which must exist. -/
def entry (m : Model) (id : CalculationId) : Except ModelError Entry :=
  match m.entry? id with
  | some e => .ok e
  | none => .error (.notFound id)

/-- The calculations, the oldest first. -/
def calculations (m : Model) : List Calculation :=
  m.entries.map (·.calculation)

/-- The identifiers of the calculations, in the same order. -/
def ids (m : Model) : List CalculationId :=
  m.entries.map Entry.id

/-- Changes the calculation with an identifier, which keeps it. -/
def modify (m : Model) (id : CalculationId) (f : Entry → Entry)
    (hf : ∀ e, (f e).id = e.id := by exact fun _ => rfl) : Model :=
  { m with roster := m.roster.modify id f hf }

/-- Makes the given calculations and all downstream of them pending, as far as they exist. -/
def markPending (m : Model) (changed : List CalculationId) : Model :=
  { m with pending := m.pending.insertMany ((m.graph.downstream changed).toList.filter m.contains) }

/-- What formulas of the model are evaluated over. -/
def context (m : Model) : Formula.Context Float where
  timeline := m.timeline
  series := m.series
  results id := (m.entry? id).map (·.result.values)

end Model

end MonthlyModel
