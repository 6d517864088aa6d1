import Mathlib.Data.List.GetD
import Mathlib.Data.Nat.Find
import MonthlyModel.Formula.Temporal
import MonthlyModel.Timeline

/-! Series as functions of the month. The temporal functions walk over a whole series; here each of
them is read off month by month: running functions as a fold over the months so far, running
functions by year as a fold from the latest start of a year on, shifts as the value of another
month. -/

namespace MonthlyModel

variable {α : Type}

/-- The position at which the year around a position starts: the latest one, up to that position,
    that opens a year. -/
def Timeline.yearStart (t : Timeline) (i : Nat) : Nat :=
  Nat.findGreatest (fun j => t.isYearStart j = true) i

namespace Formula

/-- The series of the first `n` values of a function. -/
def tabulate (n : Nat) (x : Nat → α) : Series α :=
  (List.range n).map x

/-- The fold of the values of the months from `first` to `last`. -/
def foldMonths (op : α → α → α) (start : α) (x : Nat → α) (first last : Nat) : α :=
  ((List.range' first (last + 1 - first)).map x).foldl op start

/-- The value `offset` months before month `i`; zero outside of the `n` months. -/
def lag [Zero α] (n : Nat) (x : Nat → α) (offset : Int) (i : Nat) : α :=
  if 0 ≤ i - offset ∧ i - offset < n then x (i - offset).toNat else 0

/-! ### Tabulated series -/

@[simp] theorem length_tabulate (n : Nat) (x : Nat → α) : (tabulate n x).length = n := by
  simp [tabulate]

@[simp] theorem getElem_tabulate {n i : Nat} (x : Nat → α) (h : i < (tabulate n x).length) :
    (tabulate n x)[i] = x i := by
  simp [tabulate]

theorem getElem?_tabulate {n i : Nat} (x : Nat → α) (h : i < n) : (tabulate n x)[i]? = some (x i) := by
  simp [tabulate, h]

theorem tabulate_succ (n : Nat) (x : Nat → α) : tabulate (n + 1) x = tabulate n x ++ [x n] := by
  simp [tabulate, List.range_succ]

theorem tabulate_congr {n : Nat} {x y : Nat → α} (h : ∀ i < n, x i = y i) : tabulate n x = tabulate n y :=
  List.map_congr_left fun i hi => h i (List.mem_range.mp hi)

theorem forall_mem_tabulate {n : Nat} {x : Nat → α} {p : α → Prop} :
    (∀ y ∈ tabulate n x, p y) ↔ ∀ i < n, p (x i) := by
  simp [tabulate]

theorem tabulate_getD [Zero α] (s : Series α) : tabulate s.length (fun i => s.getD i 0) = s := by
  refine List.ext_getElem (length_tabulate _ _) fun i hi hi' => ?_
  rw [getElem_tabulate, List.getD_eq_getElem _ _ hi']

/-! ### Folds over months -/

theorem foldMonths_self (op : α → α → α) (start : α) (x : Nat → α) (i : Nat) :
    foldMonths op start x i i = op start (x i) := by
  simp [foldMonths]

theorem foldMonths_succ (op : α → α → α) (start : α) (x : Nat → α) {first last : Nat} (h : first ≤ last + 1) :
    foldMonths op start x first (last + 1) = op (foldMonths op start x first last) (x (last + 1)) := by
  unfold foldMonths
  have hn : last + 1 + 1 - first = last + 1 - first + 1 := by omega
  rw [hn, List.range'_concat, List.map_append, List.foldl_append, Nat.one_mul, Nat.add_sub_cancel' h]
  rfl

theorem foldl_tabulate (op : α → α → α) (start : α) (x : Nat → α) (n : Nat) :
    (tabulate (n + 1) x).foldl op start = foldMonths op start x 0 n := by
  simp only [foldMonths, tabulate, List.range_eq_range', Nat.sub_zero]

/-! ### Running functions -/

theorem running_append_singleton (op : α → α → α) (start : α) (xs : Series α) (x : α) :
    running op start (xs ++ [x]) = running op start xs ++ [op (xs.foldl op start) x] := by
  induction xs generalizing start with
  | nil => rfl
  | cons y xs ih => simp [running, ih]

theorem running_tabulate (op : α → α → α) (start : α) (x : Nat → α) (n : Nat) :
    running op start (tabulate n x) = tabulate n (foldMonths op start x 0) := by
  induction n with
  | zero => rfl
  | succ n ih =>
    rw [tabulate_succ, running_append_singleton, ih, tabulate_succ, ← foldl_tabulate, tabulate_succ,
      List.foldl_append]
    rfl

theorem go_append_singleton (op : α → α → α) (start acc : α) (ps : List (Bool × α)) (b : Bool) (x : α) :
    runningByYear.go op start acc (ps ++ [(b, x)]) =
      runningByYear.go op start acc ps ++
        [op (if b then start else (runningByYear.go op start acc ps).getLastD acc) x] := by
  induction ps generalizing acc with
  | nil => rfl
  | cons p ps ih =>
    obtain ⟨c, y⟩ := p
    simp only [List.cons_append, runningByYear.go, ih, List.getLastD_cons]

/-- The fold that goes back to its start wherever `opens` holds, over the months of a table: in every
    month it has the fold from the latest such month on. -/
theorem go_tabulate (op : α → α → α) (start acc : α) (x : Nat → α) {opens : Nat → Bool} (h₀ : opens 0 = true)
    (n : Nat) : runningByYear.go op start acc ((List.range n).map fun i => (opens i, x i)) =
      tabulate n fun i => foldMonths op start x (Nat.findGreatest (fun j => opens j = true) i) i := by
  induction n with
  | zero => rfl
  | succ n ih =>
    rw [List.range_succ, List.map_append, List.map_singleton, go_append_singleton, ih, tabulate_succ]
    congr 2
    by_cases hn : opens n = true
    · rw [if_pos hn, Nat.findGreatest_eq hn, foldMonths_self]
    · -- A month that opens no year is not the first one, and goes on with the year of the one before.
      obtain ⟨k, rfl⟩ := Nat.exists_eq_succ_of_ne_zero (n := n) (by rintro rfl; exact hn h₀)
      rw [if_neg hn, Nat.findGreatest_of_not hn, foldMonths_succ _ _ _ (Nat.le_succ_of_le (Nat.findGreatest_le k)),
        tabulate_succ, List.getLastD_concat]

end Formula

/-! ### Starts of years -/

namespace Timeline

theorem length_newYears (before : Option Int) (ps : List Period) : (newYears before ps).length = ps.length := by
  induction ps generalizing before with
  | nil => rfl
  | cons p ps ih => simp [newYears, ih]

theorem length_yearStarts (t : Timeline) : t.yearStarts.length = t.length :=
  length_newYears none t.periods

theorem isYearStart_zero (t : Timeline) : t.isYearStart 0 = true := rfl

theorem yearStarts_head {t : Timeline} (h : 0 < t.length) : t.yearStarts.getD 0 false = true := by
  unfold yearStarts
  cases hp : t.periods with
  | nil => simp [Timeline.length, hp] at h
  | cons p ps => rfl

/-- The marks of a timeline tell for every month whether it opens a year. -/
theorem yearStarts_eq_tabulate (t : Timeline) : t.yearStarts = Formula.tabulate t.length t.isYearStart := by
  refine List.ext_getElem (by simp [length_yearStarts]) fun i hi hi' => ?_
  rw [Formula.getElem_tabulate, isYearStart, ← List.getD_eq_getElem _ false hi]
  cases i with
  | zero => simpa using yearStarts_head (length_yearStarts t ▸ hi)
  | succ i => simp

end Timeline

namespace Formula

theorem zip_tabulate {β : Type} (n : Nat) (x : Nat → α) (y : Nat → β) :
    (tabulate n x).zip (tabulate n y) = (List.range n).map fun i => (x i, y i) := by
  simp [tabulate, List.zip_map']

/-- A running function by year has, in every month, the fold from the start of the month's year on. -/
theorem runningByYear_tabulate (t : Timeline) (op : α → α → α) (start : α) (x : Nat → α) :
    runningByYear op start t.yearStarts (tabulate t.length x) =
      tabulate t.length fun i => foldMonths op start x (t.yearStart i) i := by
  rw [runningByYear, t.yearStarts_eq_tabulate, zip_tabulate, go_tabulate op start start x t.isYearStart_zero]
  rfl

/-! ### Shifts -/

theorem delay_tabulate [Zero α] (n k : Nat) (x : Nat → α) : delay (tabulate n x) k = tabulate n (lag n x k) := by
  refine List.ext_getElem (by simp [length_delay]) fun i hi hi' => ?_
  rw [length_tabulate] at hi'
  simp only [getElem_tabulate, delay, length_tabulate, lag]
  by_cases h : i < min k n
  · rw [List.getElem_append_left (by rwa [List.length_replicate]), List.getElem_replicate, if_neg (by omega)]
  · have hle : (List.replicate (min k n) (0 : α)).length ≤ i := by
      rw [List.length_replicate]
      omega
    rw [List.getElem_append_right hle, List.getElem_take, getElem_tabulate, if_pos (by omega)]
    congr 1
    simp only [List.length_replicate]
    omega

theorem advance_tabulate [Zero α] (n k : Nat) (x : Nat → α) :
    advance (tabulate n x) k = tabulate n (lag n x (-k)) := by
  refine List.ext_getElem (by simp [length_advance]) fun i hi hi' => ?_
  rw [length_tabulate] at hi'
  simp only [getElem_tabulate, advance, length_tabulate, lag]
  by_cases h : i < n - k
  · rw [List.getElem_append_left (by simpa using h), List.getElem_drop, getElem_tabulate, if_pos (by omega)]
    congr 1
    omega
  · rw [List.getElem_append_right (by simpa using h), List.getElem_replicate, if_neg (by omega)]

theorem shift_tabulate [Zero α] (n : Nat) (x : Nat → α) (offset : Int) :
    shift (tabulate n x) offset = tabulate n (lag n x offset) := by
  unfold shift
  split
  · next h => rw [delay_tabulate, Int.toNat_of_nonneg h]
  · next h => rw [advance_tabulate, Int.toNat_of_nonneg (by omega), Int.neg_neg]

end Formula

end MonthlyModel
