import MonthlyModel.Reference
import Std.Data.TreeSet

/-!
Depth-first walks over calculations. A walk enters an identifier that it has not met yet, walks on
from its neighbours and then leaves it; the identifiers in the order in which it leaves them are its
result. What has been entered is taken out of the set of those still to meet, so every walk ends.
-/

namespace MonthlyModel.Dependency

/-- What a walk still has to do. -/
inductive Visit where
  | enter (id : CalculationId)
  | leave (id : CalculationId)

theorem size_erase_lt {ids : Std.TreeSet CalculationId} {id : CalculationId} (h : id ∈ ids) :
    (ids.erase id).size < ids.size := by
  have hne : ids.size ≠ 0 := fun h' =>
    Std.TreeSet.not_mem_of_isEmpty (by rw [Std.TreeSet.isEmpty_eq_size_eq_zero, h']; rfl) h
  rw [Std.TreeSet.size_erase, if_pos (Std.TreeSet.contains_iff_mem.2 h)]
  omega

/-- The identifiers that a walk meets, in the order in which it leaves them. Only identifiers in
`ahead` are entered. -/
def leaving (next : CalculationId → List CalculationId) (ahead : Std.TreeSet CalculationId) :
    List Visit → List CalculationId
  | [] => []
  | .leave id :: rest => id :: leaving next ahead rest
  | .enter id :: rest =>
    -- It is left only after all that its neighbours lead to.
    if id ∈ ahead then leaving next (ahead.erase id) ((next id).map .enter ++ .leave id :: rest)
    else leaving next ahead rest
termination_by visits => (ahead.size, visits.length)
decreasing_by
  · simp [Prod.lex_def]
  · next h => simp [Prod.lex_def, size_erase_lt h]
  · simp [Prod.lex_def]

/-- The walk from several starts, inside of a set. -/
def walk (next : CalculationId → List CalculationId) (within : Std.TreeSet CalculationId)
    (starts : List CalculationId) : List CalculationId :=
  leaving next within (starts.map .enter)

/-- What can be reached from several starts inside of a set, the starts in it among them. -/
def reachable (next : CalculationId → List CalculationId) (within : Std.TreeSet CalculationId)
    (starts : List CalculationId) : Std.TreeSet CalculationId :=
  .ofList (walk next within starts)

end MonthlyModel.Dependency
