import MonthlyModel.Dependency.Search

/-!
The order of evaluation: precedents before dependents. The members of a component stand next to each
other, and a component that reads itself is a cycle.
-/

namespace MonthlyModel.Dependency

/-- Components in the order in which they are evaluated. -/
structure EvaluationOrder where
  components : List Component
deriving DecidableEq, Repr

namespace EvaluationOrder

/-- All calculations, each after its precedents. -/
def order (o : EvaluationOrder) : List CalculationId :=
  o.components.flatMap (·.members)

/-- The components that read themselves. -/
def cycles (o : EvaluationOrder) : List (List CalculationId) :=
  (o.components.filter (·.isCycle)).map (·.members)

/-- The cycle that a calculation is a member of. -/
def cycleOf? (o : EvaluationOrder) (id : CalculationId) : Option (List CalculationId) :=
  o.cycles.find? (·.contains id)

/-- Whether a calculation is a member of a cycle. -/
def isCyclic (o : EvaluationOrder) (id : CalculationId) : Bool :=
  o.cycles.any (·.contains id)

end EvaluationOrder

/-- The order of evaluation of a graph. -/
def Graph.evaluationOrder (g : Graph) : EvaluationOrder :=
  ⟨g.components⟩

end MonthlyModel.Dependency
