import Mathlib
import MonthlyModel.Timeline.Grouping

/-! Display periods and the calendar.

A display period is a run of neighbouring months with one key. As long as the years of fiscal years fit, months
that come later have no smaller key, so what lies between two months with one key has that key too: a run holds
all the months with its key, and the keys increase from run to run. Headings tell the keys apart. -/

namespace MonthlyModel

/-! ### Keys -/

namespace Granularity

variable {g : Granularity} {p q : Period} {endMonth : Nat}

/-- Months that the calendar takes together: the same month, quarter, year or fiscal year. -/
def Joins (g : Granularity) (p q : Period) : Prop :=
  match g with
  | .monthly => p.year = q.year ∧ p.month = q.month
  | .quarterly => p.year = q.year ∧ p.quarter = q.quarter
  | .annual => p.year = q.year
  | .fiscal endMonth => fiscalYear endMonth p = fiscalYear endMonth q

theorem key_eq_iff : g.key p = g.key q ↔ g.Joins p q := by
  cases g with
  | annual | fiscal => exact Iff.rfl
  | monthly | quarterly =>
    simp only [key, Joins, Period.year, Period.month, Period.quarter]
    omega

instance (g : Granularity) (p q : Period) : Decidable (g.Joins p q) :=
  decidable_of_iff _ key_eq_iff

/-- The year that a display period is named for fits: only the year after that of a month may fail to. -/
def NameFits (g : Granularity) (p : Period) : Prop :=
  ∀ endMonth, g = .fiscal endMonth → endMonth < p.month → Calendar.YearFits (p.year + 1)

theorem fiscalYear_eq (h : NameFits (.fiscal endMonth) p) :
    fiscalYear endMonth p = if endMonth < p.month then p.year + 1 else p.year := by
  unfold fiscalYear
  split
  · next hmonth => exact Calendar.yearAfter_eq (h endMonth rfl hmonth)
  · rfl

theorem key_le_key (hp : g.NameFits p) (hq : g.NameFits q) (h : p.ordinal ≤ q.ordinal) : g.key p ≤ g.key q := by
  cases g with
  | monthly => exact h
  | quarterly | annual =>
    simp only [key, Period.year, Period.month, Period.quarter]
    omega
  | fiscal endMonth =>
    change fiscalYear endMonth p ≤ fiscalYear endMonth q
    rw [fiscalYear_eq hp, fiscalYear_eq hq]
    split <;> split <;> simp only [Period.year, Period.month] at * <;> omega

/-- A fiscal year reaches from the month after its last month a year before to its last month. -/
theorem fiscalYear_eq_iff (hp : NameFits (.fiscal endMonth) p) (h : 1 ≤ endMonth) (h' : endMonth ≤ 12) {year : Int} :
    fiscalYear endMonth p = year ↔ (Period.ofYearMonth (year - 1) endMonth).ordinal < p.ordinal ∧
      p.ordinal ≤ (Period.ofYearMonth year endMonth).ordinal := by
  rw [fiscalYear_eq hp]
  split <;> simp only [Period.year, Period.month, Period.ofYearMonth] at * <;> omega

/-! ### Headings -/

theorem eq_of_append_eq {a b s t : String} (h : a ++ s = b ++ t) (hlength : a.length = b.length) : a = b ∧ s = t := by
  have hlist : a.toList ++ s.toList = b.toList ++ t.toList := by simpa using congrArg String.toList h
  obtain ⟨ha, hs⟩ := List.append_inj hlist (by rwa [String.length_toList, String.length_toList])
  exact ⟨String.toList_inj.mp ha, String.toList_inj.mp hs⟩

theorem year_eq_of_toString {m n : Int} (h : toString m = toString n) : m = n := by
  have hread : m.repr.toInt? = n.repr.toInt? := congrArg String.toInt? h
  rwa [Int.toInt?_repr, Int.toInt?_repr, Option.some_inj] at hread

theorem monthName_inj (h : p.monthName = q.monthName) : p.month = q.month := by
  have hnames : ∀ i < 12, ∀ j < 12, Period.monthNames.getD i "" = Period.monthNames.getD j "" → i = j := by decide
  have := hnames _ (by simp only [Period.month]; omega) _ (by simp only [Period.month]; omega) h
  simp only [Period.month] at this ⊢
  omega

theorem length_monthName (p : Period) : p.monthName.length = 3 := by
  have hnames : ∀ i < 12, (Period.monthNames.getD i "").length = 3 := by decide
  exact hnames _ (by simp only [Period.month]; omega)

theorem length_quarter (p : Period) : (toString p.quarter).length = 1 := by
  have hquarters : ∀ i < 4, (toString (i + 1)).length = 1 := by decide
  exact hquarters _ (by simp only [Period.month]; omega)

theorem quarter_eq_of_toString {m n : Nat} (h : toString m = toString n) : m = n := by
  have hread : m.repr.toNat? = n.repr.toNat? := congrArg String.toNat? h
  rwa [Nat.toNat?_repr, Nat.toNat?_repr, Option.some_inj] at hread

/-- Headings are the same for months that are taken together, and for no others. -/
theorem label_eq_iff : g.label p = g.label q ↔ g.key p = g.key q := by
  rw [key_eq_iff]
  constructor
  · intro h
    cases g with
    | monthly =>
      -- Names of months have one length, so headings can be cut where they end; so do quarters.
      have hlength : p.monthName.length = q.monthName.length := by rw [length_monthName, length_monthName]
      obtain ⟨hname, hyear⟩ := eq_of_append_eq (a := p.monthName ++ " ") (b := q.monthName ++ " ") h
        (by rw [String.length_append, String.length_append, hlength])
      exact ⟨year_eq_of_toString hyear, monthName_inj (eq_of_append_eq hname hlength).1⟩
    | quarterly =>
      have hlength : ("Q" ++ toString p.quarter).length = ("Q" ++ toString q.quarter).length := by
        rw [String.length_append, String.length_append, length_quarter, length_quarter]
      obtain ⟨hquarter, hyear⟩ := eq_of_append_eq (a := "Q" ++ toString p.quarter ++ " ")
        (b := "Q" ++ toString q.quarter ++ " ") h (by rw [String.length_append, hlength, ← String.length_append])
      obtain ⟨-, hquarter⟩ := eq_of_append_eq (eq_of_append_eq hquarter hlength).1 rfl
      exact ⟨year_eq_of_toString hyear, quarter_eq_of_toString hquarter⟩
    | annual => exact year_eq_of_toString h
    | fiscal endMonth => exact year_eq_of_toString (eq_of_append_eq h rfl).2
  · intro h
    cases g with
    | monthly =>
      obtain ⟨hyear, hmonth⟩ := h
      simp only [label, Period.label, Period.monthName, hyear, hmonth]
    | quarterly =>
      obtain ⟨hyear, hquarter⟩ := h
      simp only [label, hyear, hquarter]
    | annual => exact congrArg toString h
    | fiscal endMonth =>
      change fiscalYear endMonth p = fiscalYear endMonth q at h
      simp only [label, h]

end Granularity

/-! ### Runs of one key -/

section
variable {α : Type} {key : α → Int} {xs run run' : List α} {a b : α}

theorem key_eq_of_mem_splitBy (h : run ∈ xs.splitBy fun a b => key a == key b) (ha : a ∈ run) (hb : b ∈ run) :
    key a = key b := by
  have hkeys : (run.map key).IsChain (· = ·) :=
    (List.isChain_map key).mpr ((List.isChain_of_mem_splitBy h).imp fun _ _ h => beq_iff_eq.mp h)
  exact (List.isChain_iff_pairwise.mp hkeys).forall_of_forall (fun _ _ => rfl) (List.mem_map_of_mem ha)
    (List.mem_map_of_mem hb)

/-- If keys never decrease, they increase from run to run. -/
theorem pairwise_splitBy (h : xs.Pairwise fun a b => key a ≤ key b) :
    (xs.splitBy fun a b => key a == key b).Pairwise fun run run' => ∀ a ∈ run, ∀ b ∈ run', key a < key b := by
  -- Runs between which keys increase can be chained, since no run is empty.
  let Before (run run' : List α) : Prop := run ≠ [] ∧ run' ≠ [] ∧ ∀ a ∈ run, ∀ b ∈ run', key a < key b
  have htrans : IsTrans (List α) Before := by
    refine ⟨fun run run' run'' h h' => ⟨h.1, h'.2.1, fun a ha b hb => ?_⟩⟩
    obtain ⟨c, hc⟩ := List.exists_mem_of_ne_nil run' h.2.1
    exact Int.lt_trans (h.2.2 a ha c hc) (h'.2.2 c hc b hb)
  have hchanges := List.isChain_iff_getElem.mp (List.isChain_getLast_head_splitBy (fun a b => key a == key b) xs)
  rw [← List.flatten_splitBy (fun a b => key a == key b) xs, List.pairwise_flatten] at h
  have hordered := List.pairwise_iff_getElem.mp h.2
  have hchain : (xs.splitBy fun a b => key a == key b).IsChain Before := by
    refine List.isChain_iff_getElem.mpr fun i hi => ?_
    obtain ⟨hne, hne', hkeys⟩ := hchanges i hi
    refine ⟨hne, hne', fun a ha b hb => ?_⟩
    have hlast := key_eq_of_mem_splitBy (List.getElem_mem _) ha (List.getLast_mem hne)
    have hhead := key_eq_of_mem_splitBy (List.getElem_mem _) hb (List.head_mem hne')
    have hle := hordered i (i + 1) (by omega) hi (Nat.lt_succ_self i) a ha b hb
    have := beq_eq_false_iff_ne.mp hkeys
    omega
  exact (List.isChain_iff_pairwise.mp hchain).imp fun h => h.2.2

/-- If keys never decrease, a run holds all that has its key. -/
theorem eq_filter_of_mem_splitBy (h : xs.Pairwise fun a b => key a ≤ key b)
    (hrun : run ∈ xs.splitBy fun a b => key a == key b) (ha : a ∈ run) : run = xs.filter fun b => key b == key a := by
  obtain ⟨front, back, hsplit⟩ := List.append_of_mem hrun
  have hxs : xs = front.flatten ++ run ++ back.flatten := by
    rw [← List.flatten_splitBy (fun a b => key a == key b) xs, hsplit]
    simp
  -- Runs before this one have smaller keys, runs after it larger ones.
  have hkeys := pairwise_splitBy h
  rw [hsplit, List.pairwise_append, List.pairwise_cons] at hkeys
  obtain ⟨-, ⟨hback, -⟩, hfront⟩ := hkeys
  have hrun' : run.filter (fun b => key b == key a) = run :=
    List.filter_eq_self.mpr fun b hb => beq_iff_eq.mpr (key_eq_of_mem_splitBy hrun hb ha)
  have hfront' : front.flatten.filter (fun b => key b == key a) = [] := by
    refine List.filter_eq_nil_iff.mpr fun b hb => ?_
    obtain ⟨run', hrun', hb⟩ := List.mem_flatten.mp hb
    have := hfront run' hrun' run List.mem_cons_self b hb a ha
    rw [beq_iff_eq]
    omega
  have hback' : back.flatten.filter (fun b => key b == key a) = [] := by
    refine List.filter_eq_nil_iff.mpr fun b hb => ?_
    obtain ⟨run', hrun', hb⟩ := List.mem_flatten.mp hb
    have := hback run' hrun' a ha b hb
    rw [beq_iff_eq]
    omega
  rw [hxs, List.filter_append, List.filter_append, hfront', hrun', hback', List.nil_append, List.append_nil]

end

/-! ### Display periods -/

namespace Timeline

variable {t : Timeline} {g : Granularity} {p q : Period} {i j : Nat} {run : List (Period × Nat)} {group : PeriodGroup}

/-- The months, with their positions, that have the key of a month. -/
def around (t : Timeline) (g : Granularity) (p : Period) : List (Period × Nat) :=
  t.periods.zipIdx.filter fun m => g.key m.1 == g.key p

/-- The display period around a month. -/
def groupAround (t : Timeline) (g : Granularity) (p : Period) : PeriodGroup :=
  ⟨g.label p, (t.around g p).map (·.2)⟩

theorem mem_around : (q, i) ∈ t.around g p ↔ t.periods[i]? = some q ∧ g.key q = g.key p := by
  rw [around, List.mem_filter, List.mem_zipIdx_iff_getElem?, beq_iff_eq]

theorem mem_indices_groupAround : i ∈ (t.groupAround g p).indices ↔ ∃ q, t.periods[i]? = some q ∧ g.key q = g.key p := by
  simp [groupAround, mem_around]

/-- The years that display periods are named for fit. -/
def NamesFit (t : Timeline) (g : Granularity) : Prop :=
  ∀ p ∈ t.periods, g.NameFits p

theorem namesFit_annual (t : Timeline) : t.NamesFit .annual :=
  fun _ _ _ hg => nomatch hg

theorem pairwise_keys (hfit : t.NamesFit g) : t.periods.zipIdx.Pairwise fun a b => g.key a.1 ≤ g.key b.1 := by
  have hkeys : t.periods.Pairwise fun p q => g.key p ≤ g.key q :=
    t.increasing.imp_of_mem fun hp hq h => Granularity.key_le_key (hfit _ hp) (hfit _ hq) (Int.le_of_lt h)
  rw [← List.zipIdx_map_fst 0 t.periods, List.pairwise_map] at hkeys
  exact hkeys

theorem flatten_runs (t : Timeline) (g : Granularity) : (t.runs g).flatten = t.periods.zipIdx :=
  List.flatten_splitBy _ _

theorem ne_nil_of_mem_runs (h : run ∈ t.runs g) : run ≠ [] :=
  List.ne_nil_of_mem_splitBy h

theorem run_eq_around (hfit : t.NamesFit g) (h : run ∈ t.runs g) (hp : (p, i) ∈ run) : run = t.around g p :=
  eq_filter_of_mem_splitBy (pairwise_keys hfit) h hp

theorem groupOfRun_eq (hfit : t.NamesFit g) (h : run ∈ t.runs g) (hp : (p, i) ∈ run) : groupOfRun g run = t.groupAround g p := by
  match run, h, hp with
  | (q, j) :: rest, h, hp =>
    have hrun := run_eq_around hfit h hp
    have hq : (q, j) ∈ t.around g p := by
      rw [← hrun]
      exact List.mem_cons_self
    rw [groupAround, ← hrun, ← Granularity.label_eq_iff.mpr (mem_around.mp hq).2]
    rfl

theorem mem_groupings (hfit : t.NamesFit g) : group ∈ t.groupings g ↔ ∃ p ∈ t.periods, group = t.groupAround g p := by
  rw [groupings, List.mem_map]
  constructor
  · rintro ⟨run, hrun, rfl⟩
    obtain ⟨⟨p, i⟩, hp⟩ := List.exists_mem_of_ne_nil run (ne_nil_of_mem_runs hrun)
    have hmonth : (p, i) ∈ t.periods.zipIdx := t.flatten_runs g ▸ List.mem_flatten_of_mem hrun hp
    exact ⟨p, List.fst_mem_of_mem_zipIdx hmonth, groupOfRun_eq hfit hrun hp⟩
  · rintro ⟨p, hp, rfl⟩
    obtain ⟨i, hi⟩ := List.mem_iff_getElem?.mp hp
    have hmonth : (p, i) ∈ t.periods.zipIdx := List.mem_zipIdx_iff_getElem?.mpr hi
    rw [← t.flatten_runs g] at hmonth
    obtain ⟨run, hrun, hp⟩ := List.mem_flatten.mp hmonth
    exact ⟨run, hrun, groupOfRun_eq hfit hrun hp⟩

theorem flatMap_indices (t : Timeline) (g : Granularity) :
    (t.groupings g).flatMap (·.indices) = List.range t.length := by
  have hflat : (t.groupings g).flatMap (·.indices) = (t.runs g).flatten.map (·.2) := by
    rw [groupings, List.flatMap_map, List.map_flatten]
    rfl
  rw [hflat, flatten_runs, List.zipIdx_map_snd, List.range_eq_range']
  rfl

theorem lt_of_mem_indices (hgroup : group ∈ t.groupings g) (hi : i ∈ group.indices) : i < t.length := by
  rw [← List.mem_range, ← t.flatMap_indices g]
  exact List.mem_flatMap.mpr ⟨group, hgroup, hi⟩

theorem indices_ne_nil (h : group ∈ t.groupings g) : group.indices ≠ [] := by
  obtain ⟨run, hrun, rfl⟩ := List.mem_map.mp h
  simpa [groupOfRun] using ne_nil_of_mem_runs hrun

theorem nodup_labels (hfit : t.NamesFit g) : ((t.groupings g).map (·.label)).Nodup := by
  rw [groupings, List.map_map]
  refine List.pairwise_map.mpr ((pairwise_splitBy (pairwise_keys hfit)).imp_of_mem fun hrun hrun' hkeys hlabels => ?_)
  obtain ⟨⟨p, i⟩, hp⟩ := List.exists_mem_of_ne_nil _ (ne_nil_of_mem_runs hrun)
  obtain ⟨⟨q, j⟩, hq⟩ := List.exists_mem_of_ne_nil _ (ne_nil_of_mem_runs hrun')
  rw [Function.comp_apply, Function.comp_apply, groupOfRun_eq hfit hrun hp, groupOfRun_eq hfit hrun' hq] at hlabels
  exact Int.ne_of_lt (hkeys _ hp _ hq) (Granularity.label_eq_iff.mp hlabels)

/-- Groups that take the months of a timeline together as the calendar does: every position is in one of them,
    in order, months share a group if the calendar takes them together, and headings tell groups apart. A group
    of a fiscal year has the months after the last one of the fiscal year before, up to its own last one. -/
structure FollowCalendar (t : Timeline) (g : Granularity) (groups : List PeriodGroup) : Prop where
  positions : groups.flatMap (·.indices) = List.range t.length
  nonempty : ∀ group ∈ groups, group.indices ≠ []
  shared : ∀ i j p q, t.periods[i]? = some p → t.periods[j]? = some q →
    ((∃ group ∈ groups, i ∈ group.indices ∧ j ∈ group.indices) ↔ g.Joins p q)
  headings : ∀ group ∈ groups, ∀ i ∈ group.indices, ∀ p, t.periods[i]? = some p → group.label = g.label p
  labels : (groups.map (·.label)).Nodup
  fiscal : ∀ endMonth, g = .fiscal endMonth → 1 ≤ endMonth → endMonth ≤ 12 → ∀ i p, t.periods[i]? = some p →
    ∀ year : Int, (∃ group ∈ groups, group.label = s!"FY{year}" ∧ i ∈ group.indices) ↔
      (Period.ofYearMonth (year - 1) endMonth).ordinal < p.ordinal ∧
        p.ordinal ≤ (Period.ofYearMonth year endMonth).ordinal

/-- The group of a position is the display period around its month. -/
theorem group_eq (hfit : t.NamesFit g) (h : group ∈ t.groupings g) (hi : i ∈ group.indices) (hp : t.periods[i]? = some p) :
    group = t.groupAround g p := by
  obtain ⟨run, hrun, rfl⟩ := List.mem_map.mp h
  obtain ⟨⟨q, j⟩, hq, rfl⟩ := List.mem_map.mp hi
  have hmonth : (q, j) ∈ t.periods.zipIdx := t.flatten_runs g ▸ List.mem_flatten_of_mem hrun hq
  have hq' := List.mem_zipIdx_iff_getElem?.mp hmonth
  obtain rfl := Option.some.inj (hq'.symm.trans hp)
  exact groupOfRun_eq hfit hrun hq

theorem groupAround_mem (hfit : t.NamesFit g) (hp : t.periods[i]? = some p) :
    t.groupAround g p ∈ t.groupings g ∧ i ∈ (t.groupAround g p).indices :=
  ⟨(mem_groupings hfit).mpr ⟨p, List.mem_of_getElem? hp, rfl⟩, mem_indices_groupAround.mpr ⟨p, hp, rfl⟩⟩

theorem shared_iff (hfit : t.NamesFit g) (hp : t.periods[i]? = some p) (hq : t.periods[j]? = some q) :
    (∃ group ∈ t.groupings g, i ∈ group.indices ∧ j ∈ group.indices) ↔ g.Joins p q := by
  rw [← Granularity.key_eq_iff]
  constructor
  · rintro ⟨group, hgroup, hi, hj⟩
    rw [group_eq hfit hgroup hi hp, mem_indices_groupAround] at hj
    obtain ⟨q', hq', hkey⟩ := hj
    obtain rfl := Option.some.inj (hq'.symm.trans hq)
    exact hkey.symm
  · intro hkey
    obtain ⟨hgroup, hi⟩ := groupAround_mem hfit hp
    exact ⟨_, hgroup, hi, mem_indices_groupAround.mpr ⟨q, hq, hkey.symm⟩⟩

/-- A month is in the group of a fiscal year if that is its fiscal year. -/
theorem fiscal_iff {endMonth : Nat} (hfit : t.NamesFit (.fiscal endMonth)) (hp : t.periods[i]? = some p) (year : Int) :
    (∃ group ∈ t.groupings (.fiscal endMonth), group.label = s!"FY{year}" ∧ i ∈ group.indices) ↔
      Granularity.fiscalYear endMonth p = year := by
  constructor
  · rintro ⟨group, hgroup, hlabel, hi⟩
    rw [group_eq hfit hgroup hi hp] at hlabel
    exact Granularity.year_eq_of_toString (Granularity.eq_of_append_eq hlabel rfl).2
  · rintro rfl
    obtain ⟨hgroup, hi⟩ := groupAround_mem hfit hp
    exact ⟨_, hgroup, rfl, hi⟩

/-- The first month and the first July that a timeline can have, and the last December with a fiscal year to June
    and the month that this ends with. -/
def ends : Timeline :=
  ⟨[.ofYearMonth (-2147483648) 1, .ofYearMonth (-2147483648) 7, .ofYearMonth 2147483646 12, .ofYearMonth 2147483647 6],
    by decide⟩

theorem namesFit_ends : ends.NamesFit (.fiscal 6) := by
  have hfit : ∀ p ∈ ends.periods, 6 < p.month → Calendar.YearFits (p.year + 1) := by decide
  rintro p hp _ ⟨⟩ hmonth
  exact hfit p hp hmonth

/-- After the last year comes the first one, so that months at both ends of the calendar share a fiscal year. -/
example : Timeline.groupings ⟨[.ofYearMonth (-2147483648) 1, .ofYearMonth 2147483647 12], by decide⟩ (.fiscal 6) =
    [⟨"FY-2147483648", [0, 1]⟩] := by
  cbv

end Timeline

end MonthlyModel
