import MonthlyModel.Aggregation
import MonthlyModel.Formula.Evaluation
import MonthlyModel.Proofs.Formula.Series
import MonthlyModel.Proofs.Sheet.Rational
import MonthlyModel.Proofs.Timeline.Grouping

/-! Accumulation by year and annual display.

A display period is an interval of positions, and one that starts where the month before has another key. So
accumulation by year starts anew exactly with the annual display periods, and at the last month of such a period it
has come to what the period shows. -/

namespace MonthlyModel.Timeline

open Formula

variable {t : Timeline} {g : Granularity} {p : Period} {i first count : Nat} {group : PeriodGroup}

/-! ### Intervals of positions -/

/-- The positions of a display period follow one another. -/
theorem indices_eq_range' (h : group ∈ t.groupings g) : ∃ first count, group.indices = List.range' first (count + 1) := by
  obtain ⟨front, back, hsplit⟩ := List.append_of_mem h
  have hall := t.flatMap_indices g
  rw [hsplit, List.flatMap_append, List.flatMap_cons, List.range_eq_range'] at hall
  obtain ⟨start, -, -, hrest⟩ := List.range'_eq_append_iff.mp hall.symm
  obtain ⟨count, -, hindices, -⟩ := List.range'_eq_append_iff.mp hrest.symm
  cases count with
  | zero => exact absurd hindices (indices_ne_nil h)
  | succ count => exact ⟨_, count, hindices⟩

/-- A month starts a display period if the month before it, if there is one, has another key. -/
theorem head?_indices_iff (hfit : t.NamesFit g) (hp : t.periods[i]? = some p) :
    (∃ group ∈ t.groupings g, group.indices.head? = some i) ↔
      ∀ k q, i = k + 1 → t.periods[k]? = some q → g.key q ≠ g.key p := by
  constructor
  · rintro ⟨group, hgroup, hhead⟩ k q rfl hq hkey
    have hk : k ∈ group.indices := by
      rw [group_eq hfit hgroup (List.mem_of_mem_head? hhead) hp]
      exact mem_indices_groupAround.mpr ⟨q, hq, hkey⟩
    obtain ⟨first, count, hindices⟩ := indices_eq_range' hgroup
    rw [hindices] at hhead hk
    obtain rfl : first = k + 1 := by simpa [List.head?_range'] using hhead
    have := List.mem_range'_1.mp hk
    omega
  · intro hbefore
    obtain ⟨hgroup, hi⟩ := groupAround_mem hfit hp
    obtain ⟨first, count, hindices⟩ := indices_eq_range' hgroup
    refine ⟨_, hgroup, ?_⟩
    rw [hindices, List.mem_range'_1] at hi
    by_cases hfirst : first = i
    · rw [hindices, hfirst]
      simp [List.head?_range']
    · -- Otherwise the month before is in the same display period.
      obtain ⟨k, rfl⟩ := Nat.exists_eq_succ_of_ne_zero (n := i) (by omega)
      have hk : k ∈ (t.groupAround g p).indices := by
        rw [hindices, List.mem_range'_1]
        omega
      obtain ⟨q, hq, hkey⟩ := mem_indices_groupAround.mp hk
      exact absurd hkey (hbefore k q rfl hq)

/-! ### Starts of years -/

theorem getElem?_newYears {before : Option Int} {ps : List Period} {q : Period} (hq : ps[i]? = some q)
    (hp : ps[i + 1]? = some p) : (newYears before ps)[i + 1]? = some (q.year != p.year) := by
  induction ps generalizing before i with
  | nil => simp at hq
  | cons r rest ih =>
    rw [newYears, List.getElem?_cons_succ]
    cases i with
    | zero =>
      obtain rfl : r = q := by simpa using hq
      cases rest with
      | nil => simp at hp
      | cons s rest =>
        obtain rfl : s = p := by simpa using hp
        simp [newYears, bne]
    | succ i => exact ih hq hp

/-- A month opens a year if it is the first one or of another year than the month before. -/
theorem isYearStart_iff (hp : t.periods[i]? = some p) :
    t.isYearStart i = true ↔ ∀ k q, i = k + 1 → t.periods[k]? = some q → q.year ≠ p.year := by
  cases i with
  | zero => simp [isYearStart_zero]
  | succ k =>
    have hk : k < t.periods.length := Nat.lt_of_succ_lt (List.getElem?_eq_some_iff.mp hp).1
    have hq := List.getElem?_eq_getElem hk
    have hmark : t.isYearStart (k + 1) = (t.periods[k].year != p.year) := by
      rw [isYearStart, List.getD_eq_getElem?_getD, yearStarts, getElem?_newYears hq hp, Option.getD_some]
      rfl
    rw [hmark, bne_iff_ne]
    constructor
    · intro hne k' q hk' hq'
      obtain rfl := Nat.succ.inj hk'
      obtain rfl := Option.some.inj (hq.symm.trans hq')
      exact hne
    · exact fun h => h k _ rfl hq

/-- Years start with the annual display periods. -/
theorem isYearStart_iff_head? (hp : t.periods[i]? = some p) :
    t.isYearStart i = true ↔ ∃ group ∈ t.groupings .annual, group.indices.head? = some i := by
  rw [isYearStart_iff hp, head?_indices_iff t.namesFit_annual hp]
  exact Iff.rfl

/-- The year around the last month of an annual display period starts with that period. -/
theorem yearStart_of_indices (h : group ∈ t.groupings .annual) (hindices : group.indices = List.range' first (count + 1)) :
    t.yearStart (first + count) = first := by
  have hmonth : ∀ j, first ≤ j → j ≤ first + count → ∃ p, t.periods[j]? = some p ∧ t.groupAround .annual p = group := by
    intro j hj hj'
    have hmem : j ∈ group.indices := by
      rw [hindices, List.mem_range'_1]
      omega
    obtain ⟨q, -, rfl⟩ := (mem_groupings t.namesFit_annual).mp h
    obtain ⟨p, hp, -⟩ := mem_indices_groupAround.mp hmem
    exact ⟨p, hp, (group_eq t.namesFit_annual h hmem hp).symm⟩
  have hopens : ∀ j, first ≤ j → j ≤ first + count → (t.isYearStart j = true ↔ j = first) := by
    intro j hj hj'
    obtain ⟨p, hp, hgroup⟩ := hmonth j hj hj'
    rw [isYearStart_iff_head? hp]
    constructor
    · rintro ⟨group', hgroup', hhead⟩
      -- Both groups are the one around the month.
      rw [group_eq t.namesFit_annual hgroup' (List.mem_of_mem_head? hhead) hp, hgroup, hindices] at hhead
      exact (by simpa [List.head?_range'] using hhead : first = j).symm
    · rintro rfl
      exact ⟨group, h, by simp [hindices, List.head?_range']⟩
  refine Nat.findGreatest_eq_iff.mpr ⟨Nat.le_add_right _ _, fun _ => ?_, fun j hj hj' => ?_⟩
  · exact (hopens first (Nat.le_refl _) (Nat.le_add_right _ _)).mpr rfl
  · exact fun hopen => Nat.ne_of_gt hj ((hopens j (Nat.le_of_lt hj) hj').mp hopen)

/-! ### Accumulation by year -/

/-- At the last month of an annual display period, a running function by year has the fold of the period. -/
theorem runningByYear_last {α : Type} [Zero α] (op : α → α → α) (start : α) {xs : Series α} (hlength : xs.length = t.length)
    (h : group ∈ t.groupings .annual) (hi : group.indices.getLast? = some i) :
    (runningByYear op start t.yearStarts xs)[i]? = some ((group.indices.map fun j => xs.getD j 0).foldl op start) := by
  obtain ⟨first, count, hindices⟩ := indices_eq_range' h
  obtain rfl : first + count = i := by simpa [hindices, List.getLast?_range'] using hi
  have hlt : first + count < t.length := lt_of_mem_indices h (by simp [hindices])
  rw [← tabulate_getD xs, hlength, runningByYear_tabulate, getElem?_tabulate _ hlt, yearStart_of_indices h hindices, foldMonths,
    hindices, ← hlength, tabulate_getD, Nat.add_assoc, Nat.add_sub_cancel_left]

/-- Years start with the annual display periods, whatever gaps there are between months. At the last month of each of them
    the sum by year is what a flow shows there, and the product by year is, if products are exact, that of its values. -/
theorem years_match_annual_display {α : Type} [Arithmetic α] [Std.Associative fun x y : α => x * y]
    [Std.LawfulIdentity (fun x y : α => x * y) 1] (t : Timeline) :
    (∀ i < t.length, t.isYearStart i = true ↔ ∃ group ∈ t.groupings .annual, group.indices.head? = some i) ∧
      ∀ xs : Series α, xs.length = t.length → ∃ sums products,
        Function.cumsumByYear.apply t [xs] = .ok sums ∧ Function.cumprodByYear.apply t [xs] = .ok products ∧
        ∀ group ∈ t.groupings .annual, ∀ i, group.indices.getLast? = some i →
          sums[i]? = some (Measure.flow.aggregatePeriod xs group.indices) ∧
          products[i]? = some (group.indices.map fun j => xs.getD j 0).prod := by
  constructor
  · intro i hi
    exact isYearStart_iff_head? (List.getElem?_eq_getElem hi)
  · intro xs hlength
    refine ⟨_, _, rfl, rfl, fun group hgroup i hi => ⟨?_, ?_⟩⟩
    · exact runningByYear_last (· + ·) 0 hlength hgroup hi
    · rw [List.prod_eq_foldl]
      exact runningByYear_last (· * ·) 1 hlength hgroup hi

/-- November 2024, February and April 2025. -/
def overNewYear : Timeline :=
  ⟨[⟨24298⟩, ⟨24301⟩, ⟨24303⟩], by decide⟩

theorem years_match_annual_display_overNewYear :
    (1 < overNewYear.length ∧ overNewYear.isYearStart 1 = true) ∧
      ([2, 3, 5] : Series ℚ).length = overNewYear.length ∧ ⟨"2025", [1, 2]⟩ ∈ overNewYear.groupings .annual ∧
      ∃ sums products : Series ℚ,
        Function.cumsumByYear.apply overNewYear [[2, 3, 5]] = .ok sums ∧
        Function.cumprodByYear.apply overNewYear [[2, 3, 5]] = .ok products ∧
        sums[2]? = some 8 ∧ products[2]? = some 15 := by
  have hassoc : Std.Associative fun x y : ℚ => x * y := ⟨mul_assoc⟩
  have hone : Std.LawfulIdentity (fun x y : ℚ => x * y) 1 := { left_id := one_mul, right_id := mul_one }
  have hgroups : overNewYear.groupings .annual = [⟨"2024", [0]⟩, ⟨"2025", [1, 2]⟩] := by cbv
  have hgroup : ⟨"2025", [1, 2]⟩ ∈ overNewYear.groupings .annual := by simp [hgroups]
  have hlength : ([2, 3, 5] : Series ℚ).length = overNewYear.length := rfl
  obtain ⟨hstarts, hvalues⟩ := years_match_annual_display (α := ℚ) overNewYear
  obtain ⟨sums, products, hsums, hproducts, hlast⟩ := hvalues [2, 3, 5] hlength
  obtain ⟨hsum, hproduct⟩ := hlast _ hgroup 2 rfl
  have hopens : overNewYear.isYearStart 1 = true :=
    (hstarts 1 (by decide)).mpr ⟨_, hgroup, rfl⟩
  refine ⟨⟨by decide, hopens⟩, hlength, hgroup, sums, products, hsums, hproducts, hsum.trans ?_, hproduct.trans ?_⟩
  · exact congrArg some (show (0 + 3 + 5 : ℚ) = 8 by norm_num)
  · exact congrArg some (show (3 * (5 * 1) : ℚ) = 15 by norm_num)

end MonthlyModel.Timeline
