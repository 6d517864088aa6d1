import MonthlyModel.SeriesMap

/-! Look-ups in maps of series.

Binding the time constants of a timeline leaves what is bound, and the number of periods stays whatever
is bound. -/

namespace MonthlyModel.SeriesMap

variable {α : Type} {m m' : SeriesMap α} {r r' : Reference} {s : Series α} {t : Timeline}

theorem insert_eq_ok_iff : m.insert r s = .ok m' ↔ ∃ h : s.length = m.periods, m.bind r s h = m' := by
  unfold insert
  split
  · next h => simp [h]
  · next h => simp [h]

theorem insert_eq_error_iff {e : LengthMismatch} :
    m.insert r s = .error e ↔ s.length ≠ m.periods ∧ ⟨r.text, m.periods, s.length⟩ = e := by
  unfold insert
  split
  · next h => simp [h]
  · next h => simp [h]

/-! ### Time constants -/

theorem periods_insertNew : (m.insertNew r s).periods = m.periods := by
  unfold insertNew
  split
  · rfl
  · split <;> rfl

theorem get?_insertNew (h : s.length = m.periods) :
    (m.insertNew r s).get? r' = (m.get? r').or (if r = r' then some s else none) := by
  unfold insertNew
  split
  · next hc =>
    obtain ⟨s', hs'⟩ := Option.isSome_iff_exists.mp hc
    by_cases hr : r = r'
    · rw [← hr, hs', Option.some_or]
    · rw [if_neg hr, Option.or_none]
  · next hc =>
    have hnone : m.get? r = none := by simpa [contains] using hc
    rw [get?_bind]
    by_cases hr : r = r'
    · rw [if_pos hr, if_pos hr, ← hr, hnone, Option.none_or]
    · rw [if_neg hr, if_neg hr, Option.or_none]

theorem periods_foldl_insertNew (bs : List (Reference × Series α)) :
    (bs.foldl (fun m (r, s) => m.insertNew r s) m).periods = m.periods := by
  induction bs generalizing m with
  | nil => rfl
  | cons b bs ih => rw [List.foldl_cons, ih, periods_insertNew]

theorem get?_foldl_insertNew {bs : List (Reference × Series α)} (h : ∀ b ∈ bs, b.2.length = m.periods) :
    (bs.foldl (fun m (r, s) => m.insertNew r s) m).get? r' = (m.get? r').or (bs.lookup r') := by
  induction bs generalizing m with
  | nil => rw [List.foldl_nil, List.lookup_nil, Option.or_none]
  | cons b bs ih =>
    obtain ⟨hb, hbs⟩ := List.forall_mem_cons.mp h
    rw [List.foldl_cons, ih fun b hb => (hbs b hb).trans periods_insertNew.symm, get?_insertNew hb, List.lookup_cons]
    by_cases hr : b.1 = r'
    · simp [hr]
    · have hb : (r' == b.1) = false := beq_eq_false_iff_ne.mpr (Ne.symm hr)
      simp [hr, hb]

variable [Arithmetic α]

theorem periods_bindConstants : (m.bindConstants t).periods = m.periods :=
  periods_foldl_insertNew _

theorem get?_bindConstants (h : t.length = m.periods) :
    (m.bindConstants t).get? r = (m.get? r).or ((TimeConstant.all.map (constantBinding t)).lookup r) :=
  get?_foldl_insertNew fun b hb => by
    obtain ⟨c, -, rfl⟩ := List.mem_map.mp hb
    simpa [constantBinding, Timeline.constant, Timeline.length] using h

theorem periods_ofTimeline : (ofTimeline t : SeriesMap α).periods = t.length :=
  periods_bindConstants

theorem get?_ofTimeline :
    (ofTimeline t : SeriesMap α).get? r = (TimeConstant.all.map (constantBinding t)).lookup r := by
  rw [ofTimeline, get?_bindConstants rfl, get?_empty, Option.none_or]

omit [Arithmetic α] in
theorem mem_toList_bindings : (r, s) ∈ m.bindings.toList ↔ m.get? r = some s :=
  Std.TreeMap.mem_toList_iff_getElem?_eq_some

omit [Arithmetic α] in
theorem mem_keys_of_get? (h : m.get? r = some s) : r ∈ m.keys := by
  refine Std.TreeMap.mem_keys.mpr (Std.TreeMap.mem_iff_isSome_getElem?.mpr ?_)
  exact Option.isSome_of_mem h

omit [Arithmetic α] in
theorem nodup_keys (m : SeriesMap α) : m.keys.Nodup := by
  refine Std.TreeMap.distinct_keys.imp fun h heq => h ?_
  exact Std.LawfulEqCmp.compare_eq_iff_eq.mpr heq

omit [Arithmetic α] in
theorem nodup_toList_bindings (m : SeriesMap α) : (m.bindings.toList.map Prod.fst).Nodup := by
  rw [Std.TreeMap.map_fst_toList_eq_keys]
  exact m.nodup_keys

end MonthlyModel.SeriesMap
