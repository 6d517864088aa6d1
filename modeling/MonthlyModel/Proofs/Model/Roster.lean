import Mathlib.Data.List.Nodup
import MonthlyModel.Model.Roster

/-! The index of a roster against its entries.

Whatever is looked up in the index is what a search of the entries would find, and the operations of a
roster change, keep and drop the entries that they say. -/

namespace MonthlyModel.Roster

variable {r : Roster} {id : CalculationId} {e : Entry}

theorem position_eq_none_iff : r.positions[id]? = none ↔ ∀ e ∈ r.entries, e.id ≠ id := by
  rw [Option.eq_none_iff_forall_ne_some]
  simp only [ne_eq, r.indexed id]
  constructor
  · rintro h e he rfl
    obtain ⟨p, hp⟩ := List.mem_iff_getElem?.mp he
    exact h p (by rw [hp, Option.map_some])
  · rintro h p hp
    obtain ⟨e, he, hid⟩ := Option.map_eq_some_iff.mp hp
    exact h e (List.mem_of_getElem? he) hid

theorem id_eq_iff {p i : Nat} (hp : r.positions[id]? = some p) : r.entries[i]?.map Entry.id = some id ↔ i = p := by
  rw [← r.indexed, hp, Option.some.injEq, eq_comm]

/-- The index finds what a search finds. -/
theorem find?_eq_search : r.find? id = r.entries.find? (·.id == id) := by
  unfold find?
  cases hp : r.positions[id]? with
  | some p =>
    obtain ⟨e, he, hid⟩ := Option.map_eq_some_iff.mp ((r.indexed _ _).mp hp)
    obtain ⟨hlt, hget⟩ := List.getElem?_eq_some_iff.mp he
    rw [Option.bind_some, he, eq_comm, List.find?_eq_some_iff_getElem]
    refine ⟨beq_iff_eq.mpr hid, p, hlt, hget, fun j hj => ?_⟩
    have hne : r.entries[j].id ≠ id := fun h =>
      Nat.ne_of_lt hj ((id_eq_iff hp).mp (by rw [List.getElem?_eq_getElem (Nat.lt_trans hj hlt), Option.map_some, h]))
    simpa using hne
  | none =>
    rw [Option.bind_none, eq_comm, List.find?_eq_none]
    simpa using position_eq_none_iff.mp hp

theorem contains_eq_isSome : r.contains id = (r.find? id).isSome := by
  rw [contains, Std.TreeMap.contains_eq_isSome_getElem?, find?]
  cases hp : r.positions[id]? with
  | some p =>
    obtain ⟨e, he, -⟩ := Option.map_eq_some_iff.mp ((r.indexed _ _).mp hp)
    rw [Option.bind_some, he, Option.isSome_some, Option.isSome_some]
  | none => rfl

theorem nodup_ids : (r.entries.map Entry.id).Nodup := by
  rw [List.nodup_iff_getElem?_ne_getElem?]
  intro i j hij hj h
  rw [List.length_map] at hj
  rw [List.getElem?_map, List.getElem?_map, List.getElem?_eq_getElem hj] at h
  have hp := (r.indexed (r.entries[j]).id j).mpr (by rw [List.getElem?_eq_getElem hj, Option.map_some])
  exact Nat.ne_of_lt hij ((id_eq_iff hp).mp h)

theorem find?_of_mem (he : e ∈ r.entries) : r.find? e.id = some e := by
  obtain ⟨p, hp⟩ := List.mem_iff_getElem?.mp he
  rw [find?, (r.indexed e.id p).mpr (by rw [hp, Option.map_some]), Option.bind_some, hp]

/-! ### What the operations do to the entries -/

theorem entries_modify {f : Entry → Entry} (hf : ∀ e, (f e).id = e.id) :
    (r.modify id f hf).entries = r.entries.map fun e => if e.id = id then f e else e := by
  unfold modify
  split
  · next p hp =>
    refine List.ext_getElem? fun i => ?_
    have hi := id_eq_iff (i := i) hp
    rw [List.getElem?_modify, List.getElem?_map]
    cases he : r.entries[i]? with
    | none => split <;> rfl
    | some e =>
      rw [he, Option.map_some, Option.some.injEq, eq_comm (b := p)] at hi
      simp only [Option.map_eq_map, Option.map_some, hi]
  · next hp =>
    have hnone := position_eq_none_iff.mp hp
    rw [List.map_congr_left (g := fun e => e) fun e he => if_neg (hnone e he), List.map_id']

theorem eraseIdx_eq_filter {es : List Entry} {p : Nat} (h : ∀ i, es[i]?.map Entry.id = some id ↔ i = p) :
    es.eraseIdx p = es.filter (·.id != id) := by
  induction es generalizing p with
  | nil => rfl
  | cons e es ih =>
    have htail (i : Nat) := h (i + 1)
    simp only [List.getElem?_cons_succ] at htail
    have hhead := h 0
    rw [List.getElem?_cons_zero, Option.map_some, Option.some.injEq] at hhead
    cases p with
    | zero =>
      have hout : ∀ e ∈ es, (e.id != id) = true := by
        intro e he
        obtain ⟨i, hi⟩ := List.mem_iff_getElem?.mp he
        have hne := mt (htail i).mp (Nat.succ_ne_zero i)
        simpa [hi] using hne
      rw [List.eraseIdx_cons_zero, List.filter_cons_of_neg (by simp [hhead]), List.filter_eq_self.mpr hout]
    | succ p =>
      rw [List.eraseIdx_cons_succ, List.filter_cons_of_pos (by simp [hhead]), ih fun i => ?_]
      rw [htail, Nat.succ_inj]

theorem entries_remove : (r.remove id).entries = r.entries.filter (·.id != id) := by
  unfold remove
  split
  · next p hp => exact eraseIdx_eq_filter fun i => id_eq_iff hp
  · next hp => exact (List.filter_eq_self.mpr fun e he => by simpa using position_eq_none_iff.mp hp e he).symm

end MonthlyModel.Roster
