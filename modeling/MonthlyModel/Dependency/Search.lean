import MonthlyModel.Dependency.Graph

/-!
Components: nodes that read each other, directly or through others. One depth-first search from
dependents to precedents finds them all. Nodes are numbered as they are met and wait on a stack; a node
that leads to no waiting node with a smaller number closes a component, which is what has come onto the
stack since that node was met. So a component is found after all that its members read.
-/

namespace MonthlyModel.Dependency

/-- Calculations of which each reads every other one, directly or through others. -/
structure Component where
  /-- In ascending order. -/
  members : List CalculationId
  /-- Whether the members read themselves. -/
  isCycle : Bool
deriving DecidableEq, Repr

/-- A search for components on its way. -/
structure Search where
  /-- The nodes that have not been met. -/
  ahead : Std.TreeSet CalculationId
  /-- How many nodes have been met. -/
  count : Nat
  indices : Std.TreeMap CalculationId Nat
  /-- The nodes that have been met and whose components are not known, the latest first. -/
  stack : List CalculationId
  /-- The components that are known, the latest last. -/
  components : List Component

namespace Search

/-- A search that has met no node. -/
def start (g : Graph) : Search :=
  ⟨g.nodes, 0, ∅, [], []⟩

/-- How many nodes had been met when a node was. -/
def index (s : Search) (id : CalculationId) : Nat :=
  s.indices.getD id 0

/-- Numbers a node and puts it on the stack. -/
def meet (s : Search) (id : CalculationId) : Search :=
  { s with
    ahead := s.ahead.erase id
    count := s.count + 1
    indices := s.indices.insert id s.count
    stack := id :: s.stack }

/-- The component that a node closes, given the nodes that were met after it. -/
def componentOf (g : Graph) (id : CalculationId) (later : List CalculationId) : Component :=
  let members := (Std.TreeSet.ofList (later ++ [id])).toList
  ⟨members, 1 < members.length || (g.precedentsOf id).contains id⟩

/-- Takes the component that a node closes from the stack. -/
def close (g : Graph) (s : Search) (id : CalculationId) : Search :=
  { s with
    stack := (s.stack.dropWhile (· != id)).tail
    components := s.components ++ [componentOf g id (s.stack.takeWhile (· != id))] }

mutual

/-- Meets a node and what it leads to, and closes its component if no waiting node that was met
earlier belongs to it. The second result is the least index of a waiting node that it was found to
lead to. -/
def connect (g : Graph) (s : Search) (id : CalculationId) (h : id ∈ s.ahead) :
    { r : Search × Nat // r.1.ahead.size < s.ahead.size } :=
  have hlt : (s.meet id).ahead.size < s.ahead.size := size_erase_lt h
  let ⟨(s', low), hle⟩ := follow g (s.meet id) s.count (g.precedentsOf id).toList
  -- It leads to no waiting node that was met earlier, so what came onto the stack after it is its component.
  ⟨(if low = s.count then s'.close g id else s', low), by
    have := Nat.lt_of_le_of_lt hle hlt
    dsimp only
    split <;> exact this⟩
termination_by (s.ahead.size, 0)

/-- Goes through the precedents of a node, where `low` is the least index known so far. Precedents that
are no nodes are passed over. -/
def follow (g : Graph) (s : Search) (low : Nat) :
    List CalculationId → { r : Search × Nat // r.1.ahead.size ≤ s.ahead.size }
  | [] => ⟨(s, low), Nat.le_refl _⟩
  | p :: ps =>
    if h : p ∈ s.ahead then
      let ⟨(s', low'), hlt⟩ := connect g s p h
      let ⟨r, hle⟩ := follow g s' (min low low') ps
      ⟨r, Nat.le_trans hle (Nat.le_of_lt hlt)⟩
    else if p ∈ s.stack then follow g s (min low (s.index p)) ps
    -- Its component is known, or it is no node.
    else follow g s low ps
termination_by ps => (s.ahead.size, ps.length + 1)

end

/-- Goes on with a node that has not been met. -/
def visit (g : Graph) (s : Search) (id : CalculationId) : Search :=
  if h : id ∈ s.ahead then (connect g s id h).1.1 else s

end Search

/-- The components of a graph, each after those that it reads. -/
def Graph.components (g : Graph) : List Component :=
  (g.nodes.toList.foldl (Search.visit g) (.start g)).components

end MonthlyModel.Dependency
