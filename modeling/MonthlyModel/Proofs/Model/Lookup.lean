import MonthlyModel.Model.Results
import MonthlyModel.Proofs.Model.Roster

/-! Looking up the calculations of a model.

Whatever is done to the calculations of a model, what is found under an identifier afterwards follows
from what was found before. -/

namespace MonthlyModel.Model

variable {m m' : Model} {id id' : CalculationId} {e : Entry}

theorem entry?_def : m.entry? id = m.entries.find? (·.id == id) :=
  Roster.find?_eq_search

theorem entry?_congr (h : m'.entries = m.entries) : m'.entry? id = m.entry? id := by
  rw [entry?_def, h, entry?_def]

theorem id_of_found (h : m.entry? id = some e) : e.id = id :=
  beq_iff_eq.mp (List.find?_some (p := fun e : Entry => e.id == id) (entry?_def.symm.trans h))

theorem mem_of_found (h : m.entry? id = some e) : e ∈ m.entries :=
  List.mem_of_find?_eq_some (entry?_def.symm.trans h)

theorem contains_def : m.contains id = (m.entry? id).isSome :=
  Roster.contains_eq_isSome

theorem contains_congr (h : m'.entry? id = m.entry? id) : m'.contains id = m.contains id := by
  rw [contains_def, h, ← contains_def]

theorem contains_iff : m.contains id = true ↔ ∃ e, m.entry? id = some e := by
  rw [contains_def, Option.isSome_iff_exists]

theorem contains_iff_mem_ids : m.contains id = true ↔ id ∈ m.ids := by
  simp [contains_def, entry?_def, ids, List.find?_isSome]

theorem entry?_eq_none (h : ¬ m.contains id = true) : m.entry? id = none := by
  simpa [contains_def] using h

theorem entry?_of_mem (he : e ∈ m.entries) : m.entry? e.id = some e :=
  Roster.find?_of_mem he

theorem entry_eq_ok_iff : m.entry id = .ok e ↔ m.entry? id = some e := by
  unfold entry
  cases m.entry? id <;> simp

/-- The latest result of a calculation, whether it is up to date or not. -/
def latest (m : Model) (id : CalculationId) : Option (Formula.Evaluation Float) :=
  (m.entry? id).map (·.result)

theorem latest_eq_some (h : m.entry? id = some e) : m.latest id = some e.result := by
  rw [latest, h, Option.map_some]

theorem latest_eq_none (h : m.entry? id = none) : m.latest id = none := by
  rw [latest, h, Option.map_none]

theorem result_eq (hp : m.pending.isEmpty = true) :
    m.result id = (m.latest id).elim (.error (.notFound id)) .ok := by
  unfold result ensureFresh latest entry
  rw [if_pos hp]
  cases m.entry? id <;> rfl

theorem result_eq_result_iff (hp : m.pending.isEmpty = true) (hp' : m'.pending.isEmpty = true) :
    m'.result id = m.result id ↔ m'.latest id = m.latest id := by
  rw [result_eq hp, result_eq hp']
  cases m.latest id <;> cases m'.latest id <;> simp

/-! ### Changes of calculations -/

theorem entry?_map {f : Entry → Entry} (hf : ∀ e, (f e).id = e.id) (h : m'.entries = m.entries.map f) :
    m'.entry? id = (m.entry? id).map f := by
  have hc : ((fun e : Entry => e.id == id) ∘ f) = fun e => e.id == id := by
    funext e
    simp [hf]
  rw [entry?_def, h, List.find?_map, hc, entry?_def]

theorem entries_modify {f : Entry → Entry} (hf : ∀ e, (f e).id = e.id) :
    (m.modify id f hf).entries = m.entries.map fun e => if e.id = id then f e else e :=
  Roster.entries_modify hf

theorem entry?_modify {f : Entry → Entry} {hf : ∀ e, (f e).id = e.id}
    (h : m'.entries = (m.modify id f hf).entries) (id' : CalculationId) :
    m'.entry? id' = if id' = id then (m.entry? id).map f else m.entry? id' := by
  have hid (e : Entry) : (if e.id = id then f e else e).id = e.id := by split <;> simp [hf]
  rw [entry?_map hid (h.trans (entries_modify hf))]
  split
  · next h =>
    subst h
    cases he : m.entry? id' with
    | none => rfl
    | some e => simp [id_of_found he]
  · next h =>
    cases he : m.entry? id' with
    | none => rfl
    | some e => simp [id_of_found he, h]

theorem entry?_append (h : m'.entries = m.entries ++ [e]) :
    m'.entry? id = (m.entry? id).or (if e.id = id then some e else none) := by
  rw [entry?_def, h, List.find?_append, entry?_def, List.find?_singleton]
  simp

theorem entry?_filter (h : m'.entries = m.entries.filter (·.id != id)) :
    m'.entry? id' = if id' = id then none else m.entry? id' := by
  rw [entry?_def, h, List.find?_filter]
  split
  · next hid =>
    subst hid
    refine List.find?_eq_none.mpr fun e _ => ?_
    simp
  · next hid =>
    rw [entry?_def]
    congr 1
    funext e
    by_cases he : e.id = id'
    · simp [he, hid]
    · simp [he]

theorem ids_modify {f : Entry → Entry} {hf : ∀ e, (f e).id = e.id} (h : m'.entries = (m.modify id f hf).entries) :
    m'.ids = m.ids := by
  rw [ids, h, ids, entries_modify, List.map_map]
  refine List.map_congr_left fun e _ => ?_
  simp only [Function.comp]
  split <;> simp [hf]

/-! ### Pending calculations -/

theorem mem_markPending {changed : List CalculationId} :
    id ∈ (m.markPending changed).pending ↔
      id ∈ m.pending ∨ id ∈ m.graph.downstream changed ∧ m.contains id = true := by
  rw [markPending, Std.TreeSet.mem_insertMany_list, List.contains_iff_mem, List.mem_filter,
    Std.TreeSet.mem_toList]

@[simp] theorem contains_markPending {changed : List CalculationId} :
    (m.markPending changed).contains id = m.contains id := rfl

end MonthlyModel.Model
