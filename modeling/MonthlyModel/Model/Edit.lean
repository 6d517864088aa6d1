import MonthlyModel.Model.State

/-!
Edits of a model: inputs are bound and unbound, calculations are added, changed and removed. An edit
only makes calculations pending; a refused edit leaves the model as it was.
-/

namespace MonthlyModel

open Formula (namedReferences namedCalculations)

/-- Whether two series have equal values in all months; what is not a number equals nothing. -/
def sameSeries (xs ys : Series Float) : Bool :=
  xs.isEqv ys (· == ·)

/-- An entry with another formula; its result stays until it is evaluated. -/
def Entry.withFormula (e : Entry) (formula : String) : Entry :=
  { e with
    calculation := { e.calculation with formula := formula }
    references := namedReferences formula.toList }

namespace Model

/-! ### Inputs -/

/-- Gives a binding a new revision and makes its readers pending. -/
def inputChanged (m : Model) (r : Reference) : Model :=
  let readers := (m.entries.filter (·.references.contains r)).map (·.id)
  { m with
    clock := m.clock + 1
    inputRevisions := m.inputRevisions.insert r (m.clock + 1) }.markPending readers

/-- Binds a series. Nothing changes if an equal one is bound. -/
def setSeries (m : Model) (r : Reference) (values : Series Float) : Except ModelError Model :=
  if (m.series.get? r).any (sameSeries · values) then .ok m
  else
    match m.series.insert r values with
    | .ok series => .ok ({ m with series := series }.inputChanged r)
    | .error e => .error (.length e)

/-- Unbinds a series, which is returned. -/
def removeSeries (m : Model) (r : Reference) : Model × Option (Series Float) :=
  match m.series.get? r with
  | some values => ({ m with series := m.series.erase r }.inputChanged r, some values)
  | none => (m, none)

/-- The reference that a text writes. -/
def readReference (key : String) : Except ModelError Reference :=
  match Reference.parse key with
  | .ok r => .ok r
  | .error e => .error (.reference e)

/-- Binds a series to the reference that a text writes. -/
def setInput (m : Model) (key : String) (values : Series Float) : Except ModelError Model := do
  m.setSeries (← readReference key) values

/-- Unbinds the series of the reference that a text writes. -/
def removeInput (m : Model) (key : String) : Except ModelError (Model × Option (Series Float)) := do
  return m.removeSeries (← readReference key)

/-! ### Calculations -/

/-- Adds a calculation. Formulas that name it already become pending with it. -/
def addCalculation (m : Model) (c : Calculation) : Except ModelError Model :=
  if h : m.contains c.id then .error (.duplicate c.id)
  else .ok <| { m with
    roster := m.roster.add (Entry.new m.periods c) h
    graph := (m.graph.addNode c.id).setPrecedents c.id (namedCalculations c.formula.toList)
    }.markPending [c.id]

/-- Gives a calculation another formula, and makes it pending with all that read it. -/
def updateFormula (m : Model) (id : CalculationId) (formula : String) : Except ModelError Model := do
  let _ ← m.entry id
  let m := { m with graph := m.graph.setPrecedents id (namedCalculations formula.toList) }
  return (m.modify id (·.withFormula formula)).markPending [id]

/-- Gives a calculation another measure, which its values do not depend on. -/
def setMeasure (m : Model) (id : CalculationId) (measure : Measure) : Except ModelError Model := do
  let _ ← m.entry id
  return m.modify id fun e => { e with calculation := { e.calculation with measure := measure } }

/-- Removes a calculation, which is returned. Formulas that name it become pending. -/
def removeCalculation (m : Model) (id : CalculationId) : Except ModelError (Model × Calculation) := do
  let e ← m.entry id
  -- The readers are found while the graph still has the edges to them.
  let m := { m with roster := m.roster.remove id }.markPending [id]
  return ({ m with pending := m.pending.erase id, graph := m.graph.removeNode id }, e.calculation)

end Model

end MonthlyModel
