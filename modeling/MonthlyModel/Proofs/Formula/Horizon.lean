import MonthlyModel.Proofs.Double.Sign
import MonthlyModel.Proofs.Formula.Bounds

/-! Evaluation over the first months of a timeline.

A context is cut after some months: its timeline and all of its series. An expression whose shifts lead to
no later month looks in every month only at the months up to it, so it has the same values in the cut
context as long as there are any. What is new in a longer timeline changes nothing before it. -/

namespace MonthlyModel

/-! ### Cut timelines -/

namespace Timeline

variable {t : Timeline} {k i : Nat}

/-- The first months of a timeline. -/
def first (t : Timeline) (k : Nat) : Timeline :=
  ⟨t.periods.take k, t.increasing.take⟩

theorem length_first (h : k ≤ t.length) : (t.first k).length = k := by
  rw [length, first, List.length_take]
  exact Nat.min_eq_left h

theorem constant_first (c : TimeConstant) : (t.first k).constant c = (t.constant c).take k :=
  List.map_take

theorem newYears_take (before : Option Int) (ps : List Period) : newYears before (ps.take k) = (newYears before ps).take k := by
  induction ps generalizing before k with
  | nil => rw [List.take_nil, newYears, List.take_nil]
  | cons p ps ih =>
    cases k with
    | zero => rfl
    | succ k => rw [List.take_succ_cons, newYears, newYears, ih, List.take_succ_cons]

theorem isYearStart_first (h : i < k) : (t.first k).isYearStart i = t.isYearStart i := by
  have hmarks : (t.first k).yearStarts = t.yearStarts.take k := newYears_take none t.periods
  rw [isYearStart, isYearStart, hmarks, List.getD_eq_getElem?_getD, List.getD_eq_getElem?_getD, List.getElem?_take_of_lt h]

/-- The year around a month starts at the same month. -/
theorem yearStart_first (h : i < k) : (t.first k).yearStart i = t.yearStart i := by
  induction i with
  | zero => rfl
  | succ i ih =>
    unfold yearStart at ih ⊢
    rw [Nat.findGreatest_succ, Nat.findGreatest_succ, isYearStart_first h, ih (Nat.lt_of_succ_lt h)]

end Timeline

/-- The first values of all series. -/
def SeriesMap.first {α : Type} (m : SeriesMap α) (k : Nat) : SeriesMap α where
  periods := min k m.periods
  bindings := m.bindings.map fun _ s => s.take k
  length_eq {r s} h := by
    rw [Std.TreeMap.getElem?_map] at h
    obtain ⟨s, hs, rfl⟩ := Option.map_eq_some_iff.mp h
    rw [List.length_take, m.length_eq hs]

theorem SeriesMap.get?_first {α : Type} (m : SeriesMap α) (k : Nat) (r : Reference) :
    (m.first k).get? r = (m.get? r).map (·.take k) :=
  Std.TreeMap.getElem?_map

namespace Formula

variable {α : Type} [Arithmetic α] {c : Context α} {k : Nat} {r : Reference} {e : Expr}

namespace Context

/-- A context of the first months: its timeline, its series and its results end with them. -/
def first (c : Context α) (k : Nat) : Context α where
  timeline := c.timeline.first k
  series := c.series.first k
  results id := (c.results id).map (·.take k)

omit [Arithmetic α] in
theorem periods_first (h : k ≤ c.periods) : (c.first k).periods = k :=
  Timeline.length_first h

omit [Arithmetic α] in
theorem bound?_first : (c.first k).bound? r = (c.bound? r).map (·.take k) := by
  unfold bound?
  rw [first, SeriesMap.get?_first, Option.map_or]
  cases r.calculation? <;> rfl

theorem constant?_first : (c.first k).constant? r = (c.constant? r).map (·.take k) := by
  unfold constant?
  split
  · rw [first, Option.map_map]
    simp only [Timeline.constant_first, List.map_take]
    rfl
  · rfl

theorem resolve_first {s : Series α} (hk : k ≤ c.periods) (h : c.resolve r = .ok s) :
    (c.first k).resolve r = .ok (s.take k) := by
  obtain ⟨hs, hlength⟩ := resolve_eq_ok_iff.mp h
  refine resolve_eq_ok_iff.mpr ⟨?_, ?_⟩
  · rw [bound?_first, constant?_first, ← Option.map_or, hs, Option.map_some]
  · rw [List.length_take, hlength, periods_first hk, Nat.min_eq_left hk]

/-- No shift of an expression leads to a later month. -/
def Delays (c : Context α) (e : Expr) : Prop :=
  ∀ o ∈ e.offsets, ∀ i < c.periods, ∀ m, Arithmetic.whole? (valueAt c o i) = some m → 0 ≤ m

theorem Delays.of_binary {o : Operator} {a b : Expr} (h : c.Delays (.binary o a b)) : c.Delays a ∧ c.Delays b :=
  List.forall_mem_append.mp h

theorem Delays.of_call {f : Function} {es : List Expr} (h : c.Delays (.call f es)) : ∀ e ∈ es, c.Delays e := by
  intro e he o ho
  refine h o ?_
  rw [offsets_call]
  exact List.mem_append_right _ (List.mem_flatMap.mpr ⟨e, he, ho⟩)

end Context

/-! ### Functions look back only -/

section
variable {x y : Nat → α} {i : Nat}

omit [Arithmetic α] in
theorem foldMonths_congr {op : α → α → α} {start : α} {first last : Nat} (h : ∀ j ≤ last, y j = x j) :
    foldMonths op start y first last = foldMonths op start x first last := by
  unfold foldMonths
  refine congrArg _ (List.map_congr_left fun j hj => h j ?_)
  obtain ⟨n, hn, rfl⟩ := List.mem_range'.mp hj
  omega

theorem lag_congr {n n' : Nat} {offset : Int} (hi : i < n) (hi' : i < n') (hoffset : 0 ≤ offset)
    (h : ∀ j ≤ i, y j = x j) : lag n' y offset i = lag n x offset i := by
  unfold lag
  by_cases hbefore : 0 ≤ (i : Int) - offset
  · rw [if_pos (by omega), if_pos (by omega), h _ (by omega)]
  · rw [if_neg (by omega), if_neg (by omega)]

end

/-- The value of a function in a month is made of the values up to it, and of where its year starts. -/
theorem Function.valueAt_congr {t t' : Timeline} {f : Function} {es : List Expr} {x y : Expr → Nat → α} {i : Nat}
    (hf : f.takes es.length = true) (hi : i < t.length) (hi' : i < t'.length) (hyear : t'.yearStart i = t.yearStart i)
    (h : ∀ e ∈ es, ∀ j ≤ i, y e j = x e j)
    (hshift : f = .shift → ∀ m, Arithmetic.whole? ((es.map x).getD 1 (fun _ => 0) i) = some m → 0 ≤ m) :
    f.valueAt t' (es.map y) i = f.valueAt t (es.map x) i := by
  have hall : (es.map y).map (· i) = (es.map x).map (· i) := by
    simpa using fun e he => h e he i (Nat.le_refl i)
  cases f with
  | max | min => simp only [valueAt, hall]
  | shift =>
    obtain ⟨e, o, rfl⟩ := List.length_eq_two.mp (eq_of_takes hf rfl rfl)
    have ho : y o i = x o i := h o (by simp) i (Nat.le_refl i)
    have hoffset : 0 ≤ (Arithmetic.whole? (x o i)).getD 0 := by
      cases hm : Arithmetic.whole? (x o i) with
      | none => exact Int.le_refl 0
      | some m => exact hshift rfl m hm
    change lag _ (y e) ((Arithmetic.whole? (y o i)).getD 0) i = lag _ (x e) ((Arithmetic.whole? (x o i)).getD 0) i
    rw [ho]
    exact lag_congr hi hi' hoffset (h e (by simp))
  | prevsum =>
    obtain ⟨e, rfl⟩ := List.length_eq_one_iff.mp (eq_of_takes hf rfl rfl)
    have he : ∀ j ≤ i - 1, y e j = x e j := fun j hj => h e (by simp) j (hj.trans (Nat.sub_le i 1))
    simp [valueAt, foldMonths_congr he]
  | _ =>
    obtain ⟨e, rfl⟩ := List.length_eq_one_iff.mp (eq_of_takes hf rfl rfl)
    have he : ∀ j ≤ i, y e j = x e j := h e (by simp)
    simp [valueAt, hyear, he i, foldMonths_congr he, lag_congr hi hi' Int.one_nonneg he]

/-! ### Evaluation -/

/-- An expression has the values that it had, in all months that are left. -/
theorem valueAt_first (hk : k ≤ c.periods) (he : e.Applied) (hs : c.Supports e) (hdelays : c.Delays e) :
    (c.first k).Supports e ∧ ∀ i < k, valueAt (c.first k) e i = valueAt c e i := by
  induction e using Expr.induct with
  | number x => exact ⟨⟨by simp [Expr.references], by simp [Expr.offsets]⟩, fun _ _ => rfl⟩
  | reference r =>
    obtain ⟨s, hr⟩ := Context.reads_iff.mp (hs.reads r (List.mem_singleton_self r))
    have hfirst := Context.resolve_first hk hr
    refine ⟨⟨List.forall_mem_singleton.mpr (Context.reads_iff.mpr ⟨_, hfirst⟩), by simp [Expr.offsets]⟩, fun i hi => ?_⟩
    rw [valueAt_reference hfirst, valueAt_reference hr]
    simp [List.getElem?_take_of_lt hi]
  | negate e ih =>
    obtain ⟨hsupports, hv⟩ := ih he.of_negate ⟨hs.reads, hs.steady⟩ hdelays
    refine ⟨⟨hsupports.reads, hsupports.steady⟩, fun i hi => ?_⟩
    rw [valueAt, valueAt, hv i hi]
  | binary o a b iha ihb =>
    obtain ⟨hsa, hsb⟩ := supports_binary.mp hs
    obtain ⟨ha, hva⟩ := iha he.of_binary.1 hsa hdelays.of_binary.1
    obtain ⟨hb, hvb⟩ := ihb he.of_binary.2 hsb hdelays.of_binary.2
    refine ⟨supports_binary.mpr ⟨ha, hb⟩, fun i hi => ?_⟩
    rw [valueAt, valueAt, hva i hi, hvb i hi]
  | call f es ih =>
    obtain ⟨hf, hes⟩ := he.of_call
    obtain ⟨hsupports, haccepts⟩ := (supports_call hf).mp hs
    have ih : ∀ e ∈ es, (c.first k).Supports e ∧ ∀ i < k, valueAt (c.first k) e i = valueAt c e i :=
      fun e hmem => ih e hmem (hes e hmem) (hsupports e hmem) (hdelays.of_call e hmem)
    refine ⟨(supports_call hf).mpr ⟨fun e hmem => (ih e hmem).1, ?_⟩, fun i hi => ?_⟩
    · rintro rfl
      obtain ⟨e, o, rfl⟩ := List.length_eq_two.mp (Function.eq_of_takes hf rfl rfl)
      -- The offset of a shift is the same in all months, so it is in those that are left.
      obtain ⟨m, hm⟩ := haccepts rfl
      refine ⟨m, fun i hi => ?_⟩
      rw [Context.periods_first hk] at hi
      have ho := (ih o (by simp)).2 i hi
      change Arithmetic.whole? (valueAt _ o i) = some m
      rw [ho]
      exact hm i (by omega)
    · rw [valueAt_call, valueAt_call]
      refine Function.valueAt_congr hf (hi.trans_le hk) (hi.trans_eq (Context.periods_first hk).symm)
        (Timeline.yearStart_first hi)
        (fun e hmem j hj => (ih e hmem).2 j (hj.trans_lt hi)) ?_
      rintro rfl m hm
      obtain ⟨e, o, rfl⟩ := List.length_eq_two.mp (Function.eq_of_takes hf rfl rfl)
      exact hdelays o (by simp [offsets_call]) i (hi.trans_le hk) m hm

theorem applied_of_evaluate {s : Series α} (h : evaluate c e = .ok s) : e.Applied := by
  induction e using Expr.induct generalizing s with
  | number x => exact .number x
  | reference r => exact .reference r
  | negate e ih =>
    obtain ⟨s', hs, -⟩ := bind_eq_ok_iff.mp h
    exact .negate (ih hs)
  | binary o a b iha ihb =>
    obtain ⟨xs, ha, h⟩ := bind_eq_ok_iff.mp h
    obtain ⟨ys, hb, -⟩ := bind_eq_ok_iff.mp h
    exact .binary o (iha ha) (ihb hb)
  | call f es ih =>
    rw [evaluate] at h
    split at h
    · next hf =>
      obtain ⟨ss, hss, -⟩ := bind_eq_ok_iff.mp h
      refine .call hf fun e he => ?_
      obtain ⟨s', hs⟩ := exists_of_evaluateAll hss e he
      exact ih e he hs
    · cases h

theorem evaluate_first {s : Series α} (h : evaluate c e = .ok s) (hdelays : c.Delays e) (hk : k ≤ c.periods) :
    evaluate (c.first k) e = .ok (s.take k) := by
  have he := applied_of_evaluate h
  have hs := supports_of_evaluate he h
  obtain ⟨hfirst, hv⟩ := valueAt_first hk he hs hdelays
  rw [evaluate_of_supports he hs] at h
  cases h
  rw [evaluate_of_supports he hfirst, Context.periods_first hk, tabulate_congr hv]
  simp [tabulate, List.take_range, Nat.min_eq_left hk, ← List.map_take]

/-! ### Doubles -/

theorem valueAt_of_asNumber? {c : Context Float} {x : Float} (h : e.asNumber? = some x) (i : Nat) : valueAt c e i = x := by
  induction e using Expr.induct generalizing x with
  | number y =>
    cases h
    rfl
  | negate e ih =>
    obtain ⟨y, hy, rfl⟩ := Option.map_eq_some_iff.mp h
    rw [valueAt, ih hy]
  | _ => cases h

/-- A formula whose shifts have literal offsets that are not negative does not change its values of the first
    months when more months are added. -/
theorem evaluate_first_of_delays {c : Context Float} {s : Series Float}
    (hoffsets : ∀ o ∈ e.offsets, ∃ x, o.asNumber? = some x ∧ 0 ≤ x) (h : evaluate c e = .ok s) (hk : k ≤ c.periods) :
    evaluate (c.first k) e = .ok (s.take k) := by
  refine evaluate_first h (fun o ho i hi m hm => ?_) hk
  obtain ⟨x, hx, hnonneg⟩ := hoffsets o ho
  rw [valueAt_of_asNumber? hx] at hm
  exact Double.nonneg_of_whole? hnonneg hm

/-- December, January and February, with a result of a calculation. -/
def winter : Context Float :=
  ⟨.consecutive ⟨24311⟩ 3, .empty 3, fun _ => some [1, 2, 4]⟩

/-- The sum of a calculation since January, and the days of the month before. -/
def sinceJanuary : Expr :=
  .binary .add (.call .cumsumByYear [.reference (.calculation 4)])
    (.call .shift [.reference (.timeConstant "DiM"), .number 1])

theorem evaluate_first_of_delays_winter :
    (∀ o ∈ sinceJanuary.offsets, ∃ x, o.asNumber? = some x ∧ 0 ≤ x) ∧
      evaluate winter sinceJanuary = .ok [1, 33, 37] ∧ 2 ≤ winter.periods ∧
      evaluate (winter.first 2) sinceJanuary = .ok [1, 33] := by
  have hoffsets : ∀ o ∈ sinceJanuary.offsets, ∃ x, o.asNumber? = some x ∧ 0 ≤ x :=
    List.forall_mem_singleton.mpr ⟨1, rfl, by decide +kernel⟩
  have hvalues : evaluate winter sinceJanuary = .ok [1, 33, 37] := by
    decide +kernel
  exact ⟨hoffsets, hvalues, by decide, evaluate_first_of_delays hoffsets hvalues (by decide)⟩

end Formula

end MonthlyModel
