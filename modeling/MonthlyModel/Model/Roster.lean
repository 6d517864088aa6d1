import MonthlyModel.Calculation
import MonthlyModel.Formula.Evaluation
import MonthlyModel.Formula.Names
import Std.Data.TreeMap

/-!
The calculations of a model with their latest results, in the order of their addition, and an index of
their positions. The roster carries the proof that the index is right, so no two calculations have one
identifier, and the index can be looked up in place of a search.
-/

namespace MonthlyModel

open Formula (Evaluation)

/-- What a result was computed from. -/
structure Memo where
  formula : String
  /-- The revision of every reference of the formula; what is not there has none. -/
  revisions : List (Reference × Option Nat)
deriving DecidableEq

/-- A calculation of a model. -/
structure Entry where
  calculation : Calculation
  /-- The references of the formula. -/
  references : List Reference
  /-- The latest result. -/
  result : Evaluation Float
  /-- When the result last changed. -/
  revision : Nat
  memo : Option Memo

namespace Entry

/-- The identifier of the calculation. -/
def id (e : Entry) : CalculationId :=
  e.calculation.id

/-- A calculation that has not been evaluated. -/
def new (periods : Nat) (c : Calculation) : Entry where
  calculation := c
  references := Formula.namedReferences c.formula.toList
  result := ⟨List.replicate periods 0, none⟩
  revision := 0
  memo := none

end Entry

/-- An index gives each calculation of a list its position, and nothing else. -/
def Indexes (positions : Std.TreeMap CalculationId Nat) (entries : List Entry) : Prop :=
  ∀ id i, positions[id]? = some i ↔ entries[i]?.map Entry.id = some id

namespace Indexes

variable {positions : Std.TreeMap CalculationId Nat} {entries : List Entry} {id : CalculationId} {p : Nat} {e : Entry}

theorem empty : Indexes ∅ [] := by
  intro id i
  simp

theorem add (h : Indexes positions entries) (hid : positions[e.id]? = none) :
    Indexes (positions.insert e.id entries.length) (entries ++ [e]) := by
  intro id i
  rw [Std.TreeMap.getElem?_insert, List.getElem?_append]
  simp only [Std.LawfulEqCmp.compare_eq_iff_eq]
  split <;> split
  · next hid' hi =>
    subst hid'
    have hfree : entries[i]?.map Entry.id ≠ some e.id := fun hi' => nomatch hid.symm.trans ((h _ _).mpr hi')
    simpa [Nat.ne_of_gt hi] using hfree
  · next hid' hi =>
    subst hid'
    cases hd : i - entries.length <;> simp <;> omega
  · exact h id i
  · next hid' hi =>
    rw [h, List.getElem?_eq_none (Nat.le_of_not_lt hi)]
    cases i - entries.length <;> simp [hid']

theorem modify (h : Indexes positions entries) {f : Entry → Entry} (hf : ∀ e, (f e).id = e.id) :
    Indexes positions (entries.modify p f) := by
  intro id i
  rw [h, List.getElem?_modify]
  split <;> cases entries[i]? <;> simp [hf]

theorem remove (h : Indexes positions entries) (hp : positions[id]? = some p) :
    Indexes ((positions.erase id).map fun _ i => if p < i then i - 1 else i) (entries.eraseIdx p) := by
  intro id' i
  have hhere : ∀ {j}, entries[j]?.map Entry.id = some id ↔ j = p := fun {j} => by
    rw [← h, hp, Option.some.injEq, eq_comm]
  rw [Std.TreeMap.getElem?_map, Std.TreeMap.getElem?_erase, List.getElem?_eraseIdx]
  simp only [Std.LawfulEqCmp.compare_eq_iff_eq]
  split
  · next hid =>
    subst hid
    rw [Option.map_none, apply_ite (Option.map Entry.id)]
    split <;> simp only [hhere, reduceCtorEq, false_iff] <;> omega
  · next hid =>
    have hother : entries[p]?.map Entry.id ≠ some id' := fun hp' =>
      hid (Option.some.inj ((hhere.mpr rfl).symm.trans hp'))
    rw [Option.map_eq_some_iff]
    simp only [h id']
    constructor
    · rintro ⟨j, hj, rfl⟩
      have hne : j ≠ p := fun hjp => hother (hjp ▸ hj)
      by_cases hjp : p < j
      · rw [if_pos hjp, if_neg (by omega), Nat.sub_add_cancel (by omega), hj]
      · rw [if_neg hjp, if_pos (by omega), hj]
    · split
      · next hi => exact fun hi' => ⟨i, hi', if_neg (by omega)⟩
      · next hi => exact fun hi' => ⟨i + 1, hi', if_pos (by omega)⟩

end Indexes

/-- Calculations, the oldest first, and the position of each. -/
structure Roster where
  entries : List Entry
  positions : Std.TreeMap CalculationId Nat
  indexed : Indexes positions entries

namespace Roster

variable {r : Roster} {id : CalculationId} {e : Entry}

/-- The roster without calculations. -/
def empty : Roster :=
  ⟨[], ∅, .empty⟩

/-- Whether there is a calculation with an identifier. -/
def contains (r : Roster) (id : CalculationId) : Bool :=
  r.positions.contains id

/-- The calculation with an identifier. -/
def find? (r : Roster) (id : CalculationId) : Option Entry :=
  r.positions[id]?.bind (r.entries[·]?)

/-- Adds a calculation at the end. -/
def add (r : Roster) (e : Entry) (h : ¬ r.contains e.id = true) : Roster where
  entries := r.entries ++ [e]
  positions := r.positions.insert e.id r.entries.length
  indexed := r.indexed.add (by simpa [contains] using h)

/-- Changes the calculation with an identifier, which keeps it. -/
def modify (r : Roster) (id : CalculationId) (f : Entry → Entry)
    (hf : ∀ e, (f e).id = e.id := by exact fun _ => rfl) : Roster :=
  match r.positions[id]? with
  | some p => ⟨r.entries.modify p f, r.positions, r.indexed.modify hf⟩
  | none => r

/-- Takes a calculation out. The ones after it move up by one position. -/
def remove (r : Roster) (id : CalculationId) : Roster :=
  match hp : r.positions[id]? with
  | some p =>
    ⟨r.entries.eraseIdx p, (r.positions.erase id).map fun _ i => if p < i then i - 1 else i, r.indexed.remove hp⟩
  | none => r

end Roster

end MonthlyModel
