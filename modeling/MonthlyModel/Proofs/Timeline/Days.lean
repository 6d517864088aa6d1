import Mathlib.Algebra.BigOperators.Group.List.Basic
import Mathlib.Tactic.IntervalCases
import MonthlyModel.SeriesMap
import Std.Time.Date.PlainDate

/-! Days of months, quarters and years.

The length of a month is the number of days from its first day to the first day of the next month in the Gregorian
calendar, and quarters and years have the days of their months. So over whole years the days of the months add up
to the days of each year. -/

namespace MonthlyModel

/-! ### First days -/

namespace Period

variable {p : Period}

theorem month_bounds (p : Period) : 1 ≤ p.month ∧ p.month ≤ 12 := by
  unfold month
  omega

theorem year_next (p : Period) : p.next.year = if p.month = 12 then Calendar.yearAfter p.year else p.year := by
  unfold next
  split
  · exact year_ofYearMonth (Nat.le_refl 1) (by decide)
  · simp only [later, year, month] at *
    omega

theorem month_next (p : Period) : p.next.month = if p.month = 12 then 1 else p.month + 1 := by
  unfold next
  split
  · exact month_ofYearMonth (Nat.le_refl 1) (by decide)
  · simp only [later, month] at *
    omega

/-- The month in the calendar of the standard library. -/
def monthOfYear (p : Period) : Std.Time.Month.Ordinal :=
  ⟨p.month, by have := p.month_bounds; omega, by have := p.month_bounds; omega⟩

/-- The first day of a month. -/
def firstDay (p : Period) : Std.Time.PlainDate :=
  .ofYearMonthDayClip (.ofInt p.year) p.monthOfYear 1

/-- The number of the first day of a month, when days are counted through all months. -/
def firstDayNumber (p : Period) : Int :=
  p.firstDay.toEpochDay.val

/-- The days of a month in the Gregorian calendar. -/
def gregorianDays (p : Period) : Int :=
  (p.monthOfYear.days (Std.Time.Year.Offset.isLeap (.ofInt p.year))).val

theorem day_firstDay (p : Period) : p.firstDay.day = 1 := by
  have hdays : 27 < p.gregorianDays := Std.Time.Month.Ordinal.days_gt_27 _ p.monthOfYear
  refine if_neg fun hclip => ?_
  have hclip : p.gregorianDays < 1 := hclip
  omega

/-- The days from the first of March of year 0 to the first of March of a year. Years that begin in March end with
    their leap day. -/
def daysOfYears (year : Int) : Int :=
  365 * year + year / 4 - year / 100 + year / 400

/-- The calendar counts in eras of 400 years, which have 146097 days. -/
theorem tdiv_era (y : Int) : (if y ≥ 0 then y else y - 399).tdiv 400 = y / 400 := by
  split
  · next h => exact Int.tdiv_eq_ediv_of_nonneg h
  · have hneg : (y - 399).tdiv 400 = -((399 - y) / 400) := by
      rw [← Int.neg_sub, Int.neg_tdiv, Int.tdiv_eq_ediv_of_nonneg (by omega)]
    omega

theorem daysOfYears_eq (y : Int) : daysOfYears y = y / 400 * 146097 +
    ((y - y / 400 * 400) * 365 + (y - y / 400 * 400).tdiv 4 - (y - y / 400 * 400).tdiv 100) := by
  have hyear : 0 ≤ y - y / 400 * 400 := by omega
  rw [Int.tdiv_eq_ediv_of_nonneg hyear, Int.tdiv_eq_ediv_of_nonneg hyear, daysOfYears]
  omega

theorem firstDayNumber_eq (p : Period) : p.firstDayNumber =
    if 2 < p.month then daysOfYears p.year + (153 * (p.month - 3) + 2) / 5 - 719468
    else daysOfYears (p.year - 1) + (153 * (p.month + 9) + 2) / 5 - 719468 := by
  have heq : p.firstDayNumber = daysOfYears (if (p.month : Int) > 2 then p.year else p.year - 1) +
      (153 * (p.month + if (p.month : Int) > 2 then -3 else 9) + 2 : Int).tdiv 5 - 719468 := by
    unfold firstDayNumber Std.Time.PlainDate.toEpochDay
    rw [day_firstDay, daysOfYears_eq]
    -- What is left is arithmetic once year, month and day are read off.
    have hy : p.firstDay.year = p.year := rfl
    have hy' : Std.Time.Year.Offset.toInt p.year = p.year := rfl
    have hm : p.firstDay.month.toInt = p.month := rfl
    have hd : Std.Time.Internal.Bounded.LE.toInt (1 : Std.Time.Day.Ordinal) = 1 := rfl
    have hv (n : Int) : (Std.Time.Day.Offset.ofInt n).val = n := rfl
    dsimp only
    rw [hy, hy', hm, hd, hv, tdiv_era]
    omega
  rw [heq]
  by_cases hmonth : 2 < p.month
  · have hmonth' : (p.month : Int) > 2 := Int.ofNat_lt.mpr hmonth
    rw [if_pos hmonth, if_pos hmonth', if_pos hmonth', Int.tdiv_eq_ediv_of_nonneg (by omega)]
    rfl
  · have hmonth' : ¬ (p.month : Int) > 2 := fun h => hmonth (Int.ofNat_lt.mp h)
    rw [if_neg hmonth, if_neg hmonth', if_neg hmonth', Int.tdiv_eq_ediv_of_nonneg (by omega)]

end Period

namespace Calendar

open Period (daysOfYears)

variable {p : Period} {year : Int}

theorem daysOfYears_succ (year : Int) : daysOfYears year = daysOfYears (year - 1) + if isLeap year then 366 else 365 := by
  simp only [daysOfYears, isLeap, Bool.and_eq_true, Bool.or_eq_true, decide_eq_true_eq]
  split <;> omega

theorem firstDayNumber_next (h : YearFits (p.year + 1)) :
    p.next.firstDayNumber = p.firstDayNumber + monthLength p.year p.month := by
  obtain ⟨hfirst, hlast⟩ := p.month_bounds
  have hleap := daysOfYears_succ p.year
  rw [p.next.firstDayNumber_eq, p.firstDayNumber_eq, p.year_next, p.month_next, yearAfter_eq h, monthLength]
  -- Years of the count change in March, so February alone needs the leap years.
  generalize p.month = m at *
  split at hleap <;> interval_cases m <;> simp [*] <;> omega

theorem isLeap_ofInt (year : Int) : Std.Time.Year.Offset.isLeap (.ofInt year) = isLeap year := by
  have htmod (n : Int) : year.tmod n = 0 ↔ year % n = 0 := by
    rw [← Int.dvd_iff_tmod_eq_zero, Int.dvd_iff_emod_eq_zero]
  change decide (year.tmod 4 = 0 ∧ (year.tmod 100 ≠ 0 ∨ year.tmod 400 = 0)) = _
  simp [isLeap, htmod]

theorem gregorianDays_eq (p : Period) : p.gregorianDays = monthLength p.year p.month := by
  have hdays (leap : Bool) (m : Nat) (h : 1 ≤ (m : Int) ∧ (m : Int) ≤ 12) :
      (Std.Time.Month.Ordinal.days leap ⟨m, h⟩).val =
        ((if m = 2 then if leap then 29 else 28 else if m = 4 ∨ m = 6 ∨ m = 9 ∨ m = 11 then 30 else 31 : Nat) : Int) := by
    obtain ⟨hfirst, hlast⟩ := h
    have hfirst : 1 ≤ m := by omega
    have hlast : m ≤ 12 := by omega
    interval_cases m <;> cases leap <;> rfl
  rw [Period.gregorianDays, isLeap_ofInt]
  exact hdays _ _ _

/-! ### Last days -/

theorem december_has_31 (leap : Bool) : (31 : Std.Time.Day.Ordinal) ≤ Std.Time.Month.Ordinal.days leap 12 := by
  cases leap <;> decide

def lastDay (year : Int) : Std.Time.PlainDate :=
  ⟨.ofInt year, 12, 31, december_has_31 _⟩

theorem dayOfYear_lastDay (year : Int) : (lastDay year).dayOfYear.val = if isLeap year then 366 else 365 := by
  have hday (leap : Bool) (h : Std.Time.Month.Ordinal.Valid leap 12 31) :
      (Std.Time.ValidDate.dayOfYear ⟨(12, 31), h⟩).val = if leap then 366 else 365 := by
    cases leap <;> rfl
  rw [← isLeap_ofInt]
  exact hday _ (december_has_31 _)

/-! ### The months of a year -/

def yearMonths (year : Int) : List Period :=
  (List.range 12).map fun m => .ofYearMonth year (m + 1)

/-- The lengths of the months of a year. -/
def monthLengths (leap : Bool) : List Nat :=
  [31, if leap then 29 else 28, 31, 30, 31, 30, 31, 31, 30, 31, 30, 31]

/-- A year and the one after it are counted. -/
def Counted (year : Int) : Prop :=
  isCounted year = true ∧ isCounted (year + 1) = true

theorem Counted.fits (h : Counted year) : YearFits (year + 1) := by
  have hcounted := h.2
  simp only [isCounted, Bool.and_eq_true, decide_eq_true_eq] at hcounted
  exact ⟨by omega, by omega⟩

theorem daysInMonth_eq (h : Counted p.year) : daysInMonth p = monthLength p.year p.month := by
  have hnext : isCounted p.next.year = true := by
    rw [p.year_next, yearAfter_eq h.fits]
    split
    · exact h.2
    · exact h.1
  rw [daysInMonth, h.1, hnext]
  rfl

theorem map_daysInMonth (h : Counted year) : (yearMonths year).map daysInMonth = monthLengths (isLeap year) := by
  have hmonth : ∀ m ∈ List.range 12, daysInMonth (.ofYearMonth year (m + 1)) = monthLength year (m + 1) := by
    intro m hm
    rw [List.mem_range] at hm
    have hyear : (Period.ofYearMonth year (m + 1)).year = year := Period.year_ofYearMonth (Nat.le_add_left 1 m) hm
    rw [daysInMonth_eq (hyear.symm ▸ h), hyear, Period.month_ofYearMonth (Nat.le_add_left 1 m) hm]
  rw [yearMonths, List.map_map]
  refine (List.map_congr_left hmonth).trans ?_
  unfold monthLength
  cases isLeap year <;> rfl

theorem sum_monthLengths (h : Counted year) : (monthLengths (isLeap year)).sum = daysInYear year := by
  rw [daysInYear, h.1, Bool.true_and]
  cases isLeap year <;> rfl

/-- The months of a quarter are those of its year with its number. -/
theorem filter_quarter (p : Period) : (yearMonths p.year).filter (·.quarter = p.quarter) = p.quarterMonths := by
  have hquarter : ∀ m ∈ List.range 12, (Period.ofYearMonth p.year (m + 1)).quarter = m / 3 + 1 := by
    intro m hm
    rw [List.mem_range] at hm
    rw [Period.quarter, Period.month_ofYearMonth (Nat.le_add_left 1 m) hm, Nat.add_sub_cancel]
  obtain ⟨q, hq, hnumber, hfirst⟩ : ∃ q < 4, p.quarter = q + 1 ∧ p.ordinal / 3 * 3 = 12 * p.year + 3 * q := by
    refine ⟨(p.month - 1) / 3, ?_, rfl, ?_⟩ <;> simp only [Period.month, Period.year] <;> omega
  have hfilter : (List.range 12).filter (fun m => m / 3 + 1 = q + 1) = [3 * q, 3 * q + 1, 3 * q + 2] := by
    interval_cases q <;> rfl
  have hmonths : (List.range 12).filter ((fun p' : Period => p'.quarter = p.quarter) ∘ fun m => .ofYearMonth p.year (m + 1)) =
      (List.range 12).filter (fun m => m / 3 + 1 = q + 1) :=
    List.filter_congr fun m hm => by rw [Function.comp_apply, hquarter m hm, hnumber]
  rw [yearMonths, List.filter_map, hmonths, hfilter]
  simp only [List.map_cons, List.map_nil, Period.quarterMonths, Period.ofYearMonth, Period.later, List.cons.injEq,
    Period.mk.injEq]
  refine ⟨?_, ?_, ?_, trivial⟩ <;> omega

theorem foldl_monthLengths (leap : Bool) : ((monthLengths leap).map Float.ofNat).foldl (· + ·) 0 =
    Float.ofNat (monthLengths leap).sum := by
  cases leap <;> decide +kernel

end Calendar

namespace Timeline

open Calendar

variable {t : Timeline} {years : List Int} {year : Int} {i k : Nat} {p : Period}

/-- The values of the twelve months of a year in a series over whole years, which count from 0. -/
def ofYear {α : Type} (values : List α) (k : Nat) : List α :=
  (values.drop (12 * k)).take 12

/-- The days that a timeline gives to months, quarters and years agree with the calendar and with each other. -/
structure DaysAgree (t : Timeline) : Prop where
  month : ∀ {i : Nat} {p : Period}, t.periods[i]? = some p → Counted p.year →
    ∃ days : Nat, (t.constant .daysInMonth)[i]? = some days ∧ days = p.gregorianDays ∧
      days = p.next.firstDayNumber - p.firstDayNumber
  quarter : ∀ {i : Nat} {p : Period}, t.periods[i]? = some p → Counted p.year → (t.constant .daysInQuarter)[i]? =
    some (((yearMonths p.year).filter (·.quarter = p.quarter)).map (TimeConstant.value .daysInMonth)).sum
  year : ∀ {i : Nat} {p : Period}, t.periods[i]? = some p → Counted p.year →
    ∃ days : Nat, (t.constant .daysInYear)[i]? = some days ∧
      days = ((yearMonths p.year).map (TimeConstant.value .daysInMonth)).sum ∧ days = (lastDay p.year).dayOfYear.val
  /-- Over whole years the days of the months of each year add up to the days of the year. -/
  wholeYears : ∀ {years : List Int}, t.periods = years.flatMap yearMonths → (∀ year ∈ years, Counted year) → ∀ k < years.length,
    ofYear (t.constant .daysInYear) k = List.replicate 12 (ofYear (t.constant .daysInMonth) k).sum
  /-- And so do the doubles of the series. -/
  doubles : ∀ {years : List Int}, t.periods = years.flatMap yearMonths → (∀ year ∈ years, Counted year) → ∀ k < years.length,
    ofYear (SeriesMap.constantBinding (α := Float) t .daysInYear).2 k =
      List.replicate 12 ((ofYear (SeriesMap.constantBinding (α := Float) t .daysInMonth).2 k).foldl (· + ·) 0)

theorem ofYear_map {α β : Type} (f : α → β) (values : List α) (k : Nat) : ofYear (values.map f) k = (ofYear values k).map f := by
  rw [ofYear, ofYear, List.map_take, List.map_drop]

theorem ofYear_flatMap {α : Type} (f : Int → List α) (hf : ∀ year, (f year).length = 12) (hk : years[k]? = some year) :
    ofYear (years.flatMap f) k = f year := by
  induction years generalizing k with
  | nil => cases hk
  | cons first years ih =>
    rw [ofYear, List.flatMap_cons]
    cases k with
    | zero =>
      cases hk
      exact List.take_left' (hf _)
    | succ k =>
      have hskip : 12 * (k + 1) = (f first).length + 12 * k := by rw [hf, Nat.mul_succ, Nat.add_comm]
      rw [hskip, List.drop_length_add_append]
      exact ih hk

theorem ofYear_constant (h : t.periods = years.flatMap yearMonths) (hk : years[k]? = some year) (c : TimeConstant) :
    ofYear (t.constant c) k = (yearMonths year).map c.value := by
  rw [constant, ofYear_map, h, ofYear_flatMap yearMonths (fun _ => rfl) hk]

theorem ofYear_daysInMonth (h : t.periods = years.flatMap yearMonths) (hk : years[k]? = some year) (hc : Counted year) :
    ofYear (t.constant .daysInMonth) k = monthLengths (isLeap year) :=
  (ofYear_constant h hk .daysInMonth).trans (map_daysInMonth hc)

theorem ofYear_daysInYear (h : t.periods = years.flatMap yearMonths) (hk : years[k]? = some year) (hc : Counted year) :
    ofYear (t.constant .daysInYear) k = List.replicate 12 (monthLengths (isLeap year)).sum := by
  have hyear : ∀ m ∈ List.range 12, daysInYear (Period.ofYearMonth year (m + 1)).year = daysInYear year := by
    intro m hm
    rw [Period.year_ofYearMonth (Nat.le_add_left 1 m) (List.mem_range.mp hm)]
  rw [ofYear_constant h hk, sum_monthLengths hc, yearMonths, List.map_map]
  exact (List.map_congr_left hyear).trans (List.map_const' ..)

theorem getElem?_constant (hp : t.periods[i]? = some p) (c : TimeConstant) : (t.constant c)[i]? = some (c.value p) := by
  rw [constant, List.getElem?_map, hp, Option.map_some]

/-- The days of months, quarters and years agree in all years that are counted, leap years and years before year 0
    among them. -/
theorem days_agree (t : Timeline) : t.DaysAgree where
  month {i p} hp hc := by
    have hlength : daysInMonth p = monthLength p.year p.month := daysInMonth_eq hc
    refine ⟨_, getElem?_constant hp .daysInMonth, ?_, ?_⟩
    · rw [gregorianDays_eq]
      exact congrArg Nat.cast hlength
    · rw [firstDayNumber_next hc.fits, add_sub_cancel_left]
      exact congrArg Nat.cast hlength
  quarter {i p} hp _ := by
    rw [getElem?_constant hp, filter_quarter, List.sum_eq_foldl]
    rfl
  year {i p} hp hc := by
    refine ⟨_, getElem?_constant hp .daysInYear, ?_, ?_⟩
    · exact (sum_monthLengths hc).symm.trans (congrArg List.sum (map_daysInMonth hc).symm)
    · rw [dayOfYear_lastDay]
      change (daysInYear p.year : Int) = _
      rw [daysInYear, hc.1, Bool.true_and]
      split <;> rfl
  wholeYears {years} h hc k hk := by
    have hyear : years[k]? = some years[k] := List.getElem?_eq_getElem hk
    have hcounted := hc years[k] (List.getElem_mem hk)
    rw [ofYear_daysInYear h hyear hcounted, ofYear_daysInMonth h hyear hcounted]
  doubles {years} h hc k hk := by
    have hyear : years[k]? = some years[k] := List.getElem?_eq_getElem hk
    have hcounted := hc years[k] (List.getElem_mem hk)
    dsimp only [SeriesMap.constantBinding]
    rw [ofYear_map, ofYear_map, ofYear_daysInYear h hyear hcounted, ofYear_daysInMonth h hyear hcounted, List.map_replicate]
    exact congrArg (List.replicate 12) (foldl_monthLengths _).symm

/-- A timeline of a leap year and a common year. -/
example : (consecutive (.ofYearMonth 2024 1) 24).periods = [2024, 2025].flatMap yearMonths ∧
    ofYear ((consecutive (.ofYearMonth 2024 1) 24).constant .daysInMonth) 0 = monthLengths true := by
  decide

end Timeline

end MonthlyModel
