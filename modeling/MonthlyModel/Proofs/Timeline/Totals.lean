import Mathlib
import MonthlyModel.Aggregation
import MonthlyModel.Proofs.Formula.Series
import MonthlyModel.Proofs.Timeline.Grouping

/-! Totals over display periods.

Display periods cut a series into blocks that together are the whole series. What a measure shows for all
blocks is made of what it shows for each: the sum of their sums, the last of their last values, the first of their
first ones. So the total of a series does not depend on how its months are displayed. -/

namespace MonthlyModel

variable {α : Type} [AddMonoid α]

namespace Measure

variable {m : Measure}

/-- One value for several in a row: the sum of a flow, the last value of a stock and the first one of an opening
    stock. Zero stands for no values. -/
def overall (m : Measure) (values : List α) : α :=
  match m with
  | .flow => values.sum
  | .stock => values.getLast?.getD 0
  | .openingStock => values.head?.getD 0

theorem combine_eq_overall (m : Measure) (values : List α) : m.combine values = m.overall values := by
  cases m with
  | flow => exact List.sum_eq_foldl.symm
  | stock => exact List.getLastD_eq_getLast?
  | openingStock => exact List.headD_eq_head?_getD

/-- What stands for all values is what stands for the values of the blocks that they are cut into. -/
theorem overall_flatten {blocks : List (List α)} (h : ∀ block ∈ blocks, block ≠ []) :
    m.overall (blocks.map m.overall) = m.overall blocks.flatten := by
  cases m with
  | flow => exact List.sum_flatten.symm
  | stock =>
    simp only [overall, List.getLast?_map]
    rcases blocks.eq_nil_or_concat with rfl | ⟨front, block, rfl⟩
    · rfl
    · have hne : block ≠ [] := h block (by simp)
      simp [overall, List.getLast?_append, List.getLast?_eq_some_getLast hne]
  | openingStock =>
    simp only [overall, List.head?_map]
    cases blocks with
    | nil => rfl
    | cons block back =>
      have hne : block ≠ [] := h block List.mem_cons_self
      simp [overall, List.head?_append, List.head?_eq_some_head hne]

end Measure

namespace Timeline

variable {t : Timeline} {g : Granularity} {p : Period} {i : Nat} {group : PeriodGroup} {values : List α}

/-- The values of the months that the calendar takes together with a month. -/
def valuesAround (t : Timeline) (g : Granularity) (values : List α) (p : Period) : List α :=
  ((t.periods.zip values).filter fun m => g.Joins m.1 p).map (·.2)

omit [AddMonoid α] in
theorem zip_eq_map [Zero α] (h : values.length = t.length) :
    t.periods.zip values = t.periods.zipIdx.map fun m => (m.1, values.getD m.2 0) := by
  refine List.ext_getElem (by simp [h, length]) fun i hi hi' => ?_
  have hvalue : i < values.length := by
    rw [List.length_zip] at hi
    omega
  simp [hvalue]

omit [AddMonoid α] in
/-- The values at the positions of a group are those of the months that are taken together. -/
theorem values_of_group [Zero α] (hfit : t.NamesFit g) (h : values.length = t.length) (hgroup : group ∈ t.groupings g)
    (hi : i ∈ group.indices) (hp : t.periods[i]? = some p) :
    (group.indices.map fun j => values.getD j 0) = t.valuesAround g values p := by
  have hfilter : ∀ m : Period × Nat, (g.key m.1 == g.key p) = decide (g.Joins m.1 p) := fun m =>
    decide_eq_decide.mpr Granularity.key_eq_iff
  rw [group_eq hfit hgroup hi hp, groupAround, around, valuesAround, zip_eq_map h, List.filter_map, List.map_map, List.map_map]
  simp only [hfilter]
  rfl

/-- A series is what the groups make of it, one after the other. -/
theorem values_of_groups (h : values.length = t.length) :
    ((t.groupings g).map fun group => group.indices.map fun i => values.getD i 0).flatten = values := by
  rw [← List.flatMap_def, ← List.map_flatMap, flatMap_indices, ← h]
  exact Formula.tabulate_getD values

/-- A display period with its value shows its group: of the values of the group's months the sum, the last or the
    first one. If the years that groups are named for fit, these are the months that the calendar takes together. -/
structure Shows (t : Timeline) (g : Granularity) (m : Measure) (values : List α) (group : PeriodGroup)
    (shown : AggregatedPeriod α) : Prop where
  label : shown.label = group.label
  indices : group.indices ≠ [] ∧ ∀ i ∈ group.indices, i < values.length
  value : shown.value = m.overall (group.indices.map fun i => values.getD i 0)
  calendar : t.NamesFit g → ∀ i ∈ group.indices, ∀ p, t.periods[i]? = some p →
    shown.value = m.overall (t.valuesAround g values p)

/-- In exact arithmetic the total of a series is the same for all granularities: the sum of the months of a
    flow, the last month of a stock and the first one of an opening stock, or zero without months. Each display
    period shows the same of exactly the months of its group. -/
theorem aggregate_groupings (t : Timeline) (g : Granularity) (m : Measure) (h : values.length = t.length) :
    (m.aggregate values (t.groupings g)).total = m.overall values ∧
      List.Forall₂ (t.Shows g m values) (t.groupings g) (m.aggregate values (t.groupings g)).periods := by
  have hperiods : (m.aggregate values (t.groupings g)).periods = (t.groupings g).map fun group =>
      ⟨group.label, m.overall (group.indices.map fun i => values.getD i 0)⟩ := by
    simp only [← Measure.combine_eq_overall]
    rfl
  constructor
  -- No group is empty, so the measure of the groups' measures is that of all their months.
  · have hblocks : ∀ block ∈ (t.groupings g).map fun group => group.indices.map fun i => values.getD i 0, block ≠ [] := by
      intro block hblock
      obtain ⟨group, hgroup, rfl⟩ := List.mem_map.mp hblock
      simpa using indices_ne_nil hgroup
    calc (m.aggregate values (t.groupings g)).total
        = m.overall ((m.aggregate values (t.groupings g)).periods.map (·.value)) := m.combine_eq_overall _
      _ = m.overall (((t.groupings g).map fun group => group.indices.map fun i => values.getD i 0).map m.overall) := by
        rw [hperiods, List.map_map, List.map_map]
        rfl
      _ = m.overall values := by rw [Measure.overall_flatten hblocks, values_of_groups h]
  · rw [hperiods, List.forall₂_map_right_iff]
    refine List.forall₂_same.mpr fun group hgroup => ⟨rfl, ⟨indices_ne_nil hgroup, fun i hi => ?_⟩, rfl, ?_⟩
    · exact h ▸ lt_of_mem_indices hgroup hi
    · exact fun hfit i hi p hp => congrArg m.overall (values_of_group hfit h hgroup hi hp)

/-- February, May and July 2025. -/
def scattered : Timeline :=
  ⟨[⟨24301⟩, ⟨24304⟩, ⟨24306⟩], by decide⟩

theorem aggregate_groupings_scattered :
    ([1, 2, 4] : List ℤ).length = scattered.length ∧
      (Measure.flow.aggregate [1, 2, 4] (scattered.groupings (.fiscal 6))).total = (7 : ℤ) ∧
      List.Forall₂ (scattered.Shows (.fiscal 6) .flow ([1, 2, 4] : List ℤ))
        (scattered.groupings (.fiscal 6)) (Measure.flow.aggregate [1, 2, 4] (scattered.groupings (.fiscal 6))).periods := by
  have hlength : ([1, 2, 4] : List ℤ).length = scattered.length := rfl
  obtain ⟨htotal, hshown⟩ := aggregate_groupings scattered (.fiscal 6) .flow hlength
  exact ⟨hlength, htotal.trans rfl, hshown⟩

/-- The fiscal year to June 2025 shows February and May together. -/
example : (Measure.flow.aggregate ([1, 2, 4] : List ℤ) (scattered.groupings (.fiscal 6))).periods.map
    (fun shown => (shown.label, shown.value)) = [("FY2025", 3), ("FY2026", 4)] := by
  cbv

end Timeline

end MonthlyModel
