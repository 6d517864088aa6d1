import MonthlyModel.Dependency.Walk
import Std.Data.TreeMap

/-!
The dependency graph of calculations. An edge runs from a precedent to the dependent whose formula
reads it, and both ends know it. Edges may name identifiers that are no nodes: a formula may read a
calculation that does not exist, and is found again when that calculation is added.
-/

namespace MonthlyModel.Dependency

/-- Calculations and who reads whom. -/
structure Graph where
  nodes : Std.TreeSet CalculationId
  dependents : Std.TreeMap CalculationId (Std.TreeSet CalculationId)
  precedents : Std.TreeMap CalculationId (Std.TreeSet CalculationId)

namespace Graph

/-- The graph without calculations. -/
def empty : Graph :=
  ⟨∅, ∅, ∅⟩

instance : Inhabited Graph :=
  ⟨empty⟩

/-- The calculations that read a calculation. -/
def dependentsOf (g : Graph) (id : CalculationId) : Std.TreeSet CalculationId :=
  g.dependents.getD id ∅

/-- The calculations that a calculation reads. -/
def precedentsOf (g : Graph) (id : CalculationId) : Std.TreeSet CalculationId :=
  g.precedents.getD id ∅

/-- Whether an identifier is a node. -/
def contains (g : Graph) (id : CalculationId) : Bool :=
  g.nodes.contains id

/-- The number of nodes. -/
def size (g : Graph) : Nat :=
  g.nodes.size

/-- Adds a node; edges that name it already are there. -/
def addNode (g : Graph) (id : CalculationId) : Graph :=
  { g with nodes := g.nodes.insert id }

/-- Adds an edge, at both of its ends. -/
def addEdge (g : Graph) (precedent dependent : CalculationId) : Graph :=
  { g with
    dependents := g.dependents.insert precedent ((g.dependentsOf precedent).insert dependent)
    precedents := g.precedents.insert dependent ((g.precedentsOf dependent).insert precedent) }

/-- Takes an edge out at the end of its precedent, which has no entry once no dependents are left. -/
def forgetDependent (dependent : CalculationId)
    (dependents : Std.TreeMap CalculationId (Std.TreeSet CalculationId)) (precedent : CalculationId) :
    Std.TreeMap CalculationId (Std.TreeSet CalculationId) :=
  let left := (dependents.getD precedent ∅).erase dependent
  if left.isEmpty then dependents.erase precedent else dependents.insert precedent left

/-- Takes out all edges to a dependent. -/
def clearPrecedents (g : Graph) (dependent : CalculationId) : Graph :=
  { g with
    dependents := (g.precedentsOf dependent).toList.foldl (forgetDependent dependent) g.dependents
    precedents := g.precedents.erase dependent }

/-- Gives a dependent new precedents in place of the ones it had. -/
def setPrecedents (g : Graph) (dependent : CalculationId) (precedents : List CalculationId) : Graph :=
  precedents.foldl (fun g p => g.addEdge p dependent) (g.clearPrecedents dependent)

/-- Takes out a node with the edges to it. The edges from it stay, since its dependents still name
it. -/
def removeNode (g : Graph) (id : CalculationId) : Graph :=
  { g with nodes := g.nodes.erase id }.clearPrecedents id

/-- Takes out all nodes and edges. -/
def clear (_ : Graph) : Graph :=
  empty

/-! ### What lies downstream -/

/-- The identifiers that edges name. -/
def mentioned (g : Graph) : List CalculationId :=
  g.dependents.toList.flatMap fun (p, ds) => p :: ds.toList

/-- The given calculations and all that read them, directly or through others. -/
def downstream (g : Graph) (ids : List CalculationId) : Std.TreeSet CalculationId :=
  -- A start may have no edges, so what edges name does not hold all that the walk enters.
  reachable (fun id => (g.dependentsOf id).toList) (.ofList (ids ++ g.mentioned)) ids

/-- Whether a calculation would read itself if it had these precedents. -/
def wouldClose (g : Graph) (dependent : CalculationId) (precedents : List CalculationId) : Bool :=
  let below := g.downstream [dependent]
  precedents.any below.contains

/-- Whether a calculation reads itself, directly or through others. -/
def isCircular (g : Graph) (id : CalculationId) : Bool :=
  g.wouldClose id (g.precedentsOf id).toList

end Graph

end MonthlyModel.Dependency
