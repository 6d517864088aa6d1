import MonthlyModel.Arithmetic
import MonthlyModel.Reference.Order
import MonthlyModel.Timeline
import Std.Data.TreeMap

/-!
Series by reference. Every series of a map has the map's number of periods; the map carries the
proof, so a series that does not fit cannot be bound.
-/

namespace MonthlyModel

/-- A series, or a timeline, that is longer or shorter than the periods it belongs to. -/
structure LengthMismatch where
  subject : String
  expected : Nat
  actual : Nat
deriving DecidableEq, Repr

/-- The mismatch as a user reads it. -/
def LengthMismatch.message (e : LengthMismatch) : String :=
  s!"Array for {e.subject} has length {e.actual}, timeline has {e.expected} periods"

/-- Series of one length, bound to references. -/
structure SeriesMap (α : Type) where
  periods : Nat
  bindings : Std.TreeMap Reference (Series α)
  length_eq : ∀ {r : Reference} {s : Series α}, bindings[r]? = some s → s.length = periods

namespace SeriesMap

variable {α : Type}

/-- The map for a number of periods that binds nothing. -/
def empty (periods : Nat) : SeriesMap α where
  periods := periods
  bindings := ∅
  length_eq h := by simp at h

instance : Inhabited (SeriesMap α) :=
  ⟨empty 0⟩

/-- The series bound to a reference. -/
def get? (m : SeriesMap α) (r : Reference) : Option (Series α) :=
  m.bindings[r]?

/-- Whether a reference is bound. -/
def contains (m : SeriesMap α) (r : Reference) : Bool :=
  (m.get? r).isSome

/-- The bound references, in order. -/
def keys (m : SeriesMap α) : List Reference :=
  m.bindings.keys

/-- The number of bound references. -/
def size (m : SeriesMap α) : Nat :=
  m.bindings.size

/-- A map in which a reference is bound to a series of the right length. -/
def bind (m : SeriesMap α) (r : Reference) (s : Series α) (h : s.length = m.periods) : SeriesMap α where
  periods := m.periods
  bindings := m.bindings.insert r s
  length_eq {r' s'} h' := by
    rw [Std.TreeMap.getElem?_insert] at h'
    split at h'
    · rw [← Option.some.inj h', h]
    · exact m.length_eq h'

/-- A map in which a reference is bound to a series, which must have the map's length. -/
def insert (m : SeriesMap α) (r : Reference) (s : Series α) : Except LengthMismatch (SeriesMap α) :=
  if h : s.length = m.periods then .ok (m.bind r s h)
  else .error ⟨r.text, m.periods, s.length⟩

/-- A map in which a reference is not bound. -/
def erase (m : SeriesMap α) (r : Reference) : SeriesMap α where
  periods := m.periods
  bindings := m.bindings.erase r
  length_eq {r' s'} h' := by
    rw [Std.TreeMap.getElem?_erase] at h'
    split at h'
    · simp at h'
    · exact m.length_eq h'

/-- Binds a reference that is free; what is bound stays, and a series that does not fit is left out. -/
def insertNew (m : SeriesMap α) (r : Reference) (s : Series α) : SeriesMap α :=
  if m.contains r then m
  else if h : s.length = m.periods then m.bind r s h
  else m

/-- The reference and the series of a time constant. -/
def constantBinding [Arithmetic α] (t : Timeline) (c : TimeConstant) : Reference × Series α :=
  (.timeConstant c.name, (t.constant c).map Arithmetic.ofNat)

/-- Binds the time constants that are free. -/
def bindConstants [Arithmetic α] (m : SeriesMap α) (t : Timeline) : SeriesMap α :=
  (TimeConstant.all.map (constantBinding t)).foldl (fun m (r, s) => m.insertNew r s) m

/-- The map for a timeline with its time constants. -/
def ofTimeline [Arithmetic α] (t : Timeline) : SeriesMap α :=
  (empty t.length).bindConstants t

/-- Binds the free time constants of a timeline, which must have the map's length. -/
def withConstants [Arithmetic α] (m : SeriesMap α) (t : Timeline) : Except LengthMismatch (SeriesMap α) :=
  if t.length = m.periods then .ok (m.bindConstants t)
  else .error ⟨"timeline", m.periods, t.length⟩

/-! ### What the operations do to a look-up -/

theorem get?_empty (periods : Nat) (r : Reference) : (empty periods : SeriesMap α).get? r = none := by
  simp [get?, empty]

theorem get?_bind (m : SeriesMap α) (r : Reference) (s : Series α) (h : s.length = m.periods)
    (r' : Reference) : (m.bind r s h).get? r' = if r = r' then some s else m.get? r' := by
  simp [get?, bind, Std.TreeMap.getElem?_insert]

theorem get?_erase (m : SeriesMap α) (r r' : Reference) :
    (m.erase r).get? r' = if r = r' then none else m.get? r' := by
  simp [get?, erase, Std.TreeMap.getElem?_erase]

theorem length_of_get? {m : SeriesMap α} {r : Reference} {s : Series α} (h : m.get? r = some s) :
    s.length = m.periods :=
  m.length_eq h

end SeriesMap

end MonthlyModel
