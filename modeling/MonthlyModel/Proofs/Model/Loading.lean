import MonthlyModel.Model.Files
import MonthlyModel.Proofs.Csv.Rows
import MonthlyModel.Proofs.Model.Consistency

/-! What loading a file does to a model.

The reader binds the time constants before it reads a row, and all that it has bound is then bound in the
model. So a file works as if it began with a row for each time constant. -/

namespace MonthlyModel.Model

open Csv (lastValues constantRows rows? readInputs)
open Relation

/-- The series bound to a reference compares equal to a given one. What is not a number does not. -/
def binds (m : Model) (r : Reference) (values : Series Float) : Bool :=
  (m.series.get? r).any (sameSeries · values)

variable {m m₀ m' : Model} {n : Nat} {x : CalculationId} {r : Reference} {b : Reference × Series Float}
  {done todo : List (Reference × Series Float)}

theorem binds_iff {values : Series Float} :
    m.binds r values = true ↔ ∃ s, m.series.get? r = some s ∧ sameSeries s values = true := by
  unfold binds
  cases m.series.get? r <;> simp

theorem depends_congr (ht : m'.timeline = m.timeline) (he : m'.entries = m.entries) :
    m'.Depends x r ↔ m.Depends x r := by
  have hnames : m'.Names = m.Names := by
    funext d p
    exact propext (SameFormulas.of_entries ht he).names
  simp only [Depends, hnames, entry?_congr he]

/-! ### Loading series one after the other -/

/-- A model after series were loaded, of which some number was bound. -/
structure Loaded (m₀ : Model) (done : List (Reference × Series Float)) (m : Model) (n : Nat) : Prop where
  timeline : m.timeline = m₀.timeline
  entries : m.entries = m₀.entries
  periods : m.series.periods = m₀.series.periods
  coherent : m.Coherent
  others : ∀ {r}, r ∉ done.map Prod.fst → m.series.get? r = m₀.series.get? r
  bound : ∀ b ∈ done, m.series.get? b.1 = if m₀.binds b.1 b.2 then m₀.series.get? b.1 else some b.2
  pending : ∀ {x}, x ∈ m.pending → x ∈ m₀.pending ∨ ∃ b ∈ done, m₀.binds b.1 b.2 = false ∧ m₀.Depends x b.1
  count : n = (done.filter fun b => !m₀.binds b.1 b.2).length

namespace Loaded

theorem nil (hm : m.Coherent) : Loaded m [] m 0 :=
  ⟨rfl, rfl, rfl, hm, fun _ => rfl, List.forall_mem_nil _, .inl, rfl⟩

/-- A series that compares equal to the bound one changes nothing. -/
theorem kept (h : Loaded m₀ done m n) (hb : b.1 ∉ done.map Prod.fst) (hs : m₀.binds b.1 b.2 = true) :
    Loaded m₀ (done ++ [b]) m n where
  timeline := h.timeline
  entries := h.entries
  periods := h.periods
  coherent := h.coherent
  others hr := h.others fun hr' => hr (by simp [List.mem_map.mp hr'])
  bound := by
    simp only [List.forall_mem_append, List.forall_mem_singleton]
    exact ⟨h.bound, by rw [if_pos hs, h.others hb]⟩
  pending hx := (h.pending hx).imp_right fun ⟨b', hb', hr⟩ => ⟨b', List.mem_append_left _ hb', hr⟩
  count := by simp [h.count, List.filter_append, hs]

/-- A series that does not is bound. -/
theorem rebound (h : Loaded m₀ done m n) (hb : b.1 ∉ done.map Prod.fst) (hs : m₀.binds b.1 b.2 = false)
    (hm : ReboundAt b.1 m m') (hc : m'.Coherent) (hget : m'.series.get? b.1 = some b.2) :
    Loaded m₀ (done ++ [b]) m' (n + 1) where
  timeline := hm.timeline.trans h.timeline
  entries := hm.entries.trans h.entries
  periods := hm.periods.trans h.periods
  coherent := hc
  others {r} hr := by
    have hne : r ≠ b.1 := fun he => hr (by simp [he])
    rw [hm.others hne]
    exact h.others fun hr' => hr (by simp [List.mem_map.mp hr'])
  bound := by
    simp only [List.forall_mem_append, List.forall_mem_singleton]
    refine ⟨fun b' hb' => ?_, by rw [hget, hs, if_neg Bool.false_ne_true]⟩
    have hne : b'.1 ≠ b.1 := fun he => hb (he ▸ List.mem_map_of_mem hb')
    rw [hm.others hne]
    exact h.bound b' hb'
  pending hx := by
    rcases hm.depends hx with hx | hx
    · exact (h.pending hx).imp_right fun ⟨b', hb', hr⟩ => ⟨b', List.mem_append_left _ hb', hr⟩
    · exact .inr ⟨b, List.mem_append_right _ (List.mem_singleton_self b), hs, (depends_congr h.timeline h.entries).mp hx⟩
  count := by simp [h.count, List.filter_append, hs]

theorem step (h : Loaded m₀ done m n) (hb : b.1 ∉ done.map Prod.fst) (hl : b.2.length = m₀.series.periods) :
    ∃ m' n', loadSeries (m, n) b = .ok (m', n') ∧ Loaded m₀ (done ++ [b]) m' n' := by
  have hget : (m.series.get? b.1).any (sameSeries · b.2) = m₀.binds b.1 b.2 := by rw [h.others hb, binds]
  unfold loadSeries
  cases hs : m₀.binds b.1 b.2 with
  | true =>
    rw [hs] at hget
    exact ⟨m, n, by simp [hget]; rfl, h.kept hb hs⟩
  | false =>
    rw [hs] at hget
    obtain ⟨m', hset, hm, hc, hbound⟩ := exists_setSeries h.coherent hget (hl.trans h.periods.symm)
    exact ⟨m', n + 1, by simp [hget, hset], h.rebound hb hs hm hc hbound⟩

theorem foldlM (h : Loaded m₀ done m n) (hnd : ((done ++ todo).map Prod.fst).Nodup)
    (hl : ∀ b ∈ todo, b.2.length = m₀.series.periods) :
    ∃ m' n', todo.foldlM loadSeries (m, n) = .ok (m', n') ∧ Loaded m₀ (done ++ todo) m' n' := by
  induction todo generalizing done m n with
  | nil => exact ⟨m, n, rfl, (List.append_nil done).symm ▸ h⟩
  | cons b todo ih =>
    obtain ⟨hb, htodo⟩ := List.forall_mem_cons.mp hl
    have hfree : b.1 ∉ done.map Prod.fst := by
      rw [List.map_append] at hnd
      exact fun hin => List.disjoint_of_nodup_append hnd hin (List.mem_map_of_mem List.mem_cons_self)
    obtain ⟨m₁, n₁, hstep, h₁⟩ := h.step hfree hb
    rw [List.append_cons] at hnd ⊢
    obtain ⟨m', n', hfold, h'⟩ := ih h₁ hnd htodo
    refine ⟨m', n', ?_, h'⟩
    rw [List.foldlM_cons, hstep]
    exact hfold

end Loaded

/-! ### Loading a file -/

/-- The references that rows name and give series that do not compare equal to what is bound. -/
def changedBy (m : Model) (rows : List (Reference × Series Float)) : List Reference :=
  (rows.map Prod.fst).dedup.filter fun r => !(lastValues rows r).any (m.binds r)

theorem nodup_changedBy (m : Model) (rows : List (Reference × Series Float)) : (m.changedBy rows).Nodup :=
  (List.nodup_dedup _).filter _

theorem mem_changedBy {rows : List (Reference × Series Float)} :
    r ∈ m.changedBy rows ↔ ∃ values, lastValues rows r = some values ∧ m.binds r values = false := by
  rw [changedBy, List.mem_filter, List.mem_dedup, ← Csv.exists_lastValues_iff]
  constructor
  · rintro ⟨⟨values, h⟩, hb⟩
    exact ⟨values, h, by simpa [h] using hb⟩
  · rintro ⟨values, h, hb⟩
    exact ⟨⟨values, h⟩, by simp [h, hb]⟩

/-- If what is loaded is what rows give, and else compares equal to what is bound, the changed references are
    those of the loaded series that do not. -/
theorem mem_changedBy_iff_loaded {rows : List (Reference × Series Float)}
    (hrows : ∀ r values, lastValues rows r = some values → (r, values) ∈ done)
    (hrest : ∀ b ∈ done, lastValues rows b.1 = some b.2 ∨ lastValues rows b.1 = none ∧ m.binds b.1 b.2 = true) :
    r ∈ m.changedBy rows ↔ ∃ b ∈ done, m.binds b.1 b.2 = false ∧ b.1 = r := by
  rw [mem_changedBy]
  constructor
  · rintro ⟨values, hvalues, hbinds⟩
    exact ⟨(r, values), hrows r values hvalues, hbinds, rfl⟩
  · rintro ⟨b, hb, hbinds, rfl⟩
    rcases hrest b hb with hsome | ⟨-, hbinds'⟩
    · exact ⟨b.2, hsome, hbinds⟩
    · exact nomatch hbinds.symm.trans hbinds'

/-- Loading changes only what rows name: it binds what they give, no calculation becomes pending that
    does not read a changed reference, and the changes are counted. -/
structure Loads (rows : List (Reference × Series Float)) (m m' : Model) (n : Nat) : Prop where
  named : ∀ r values, lastValues rows r = some values →
    ∃ bound, m'.series.get? r = some bound ∧ (bound = values ∨ sameSeries bound values = true)
  others : ∀ r, lastValues rows r = none → m'.series.get? r = m.series.get? r
  pending : ∀ x ∈ m'.pending, x ∈ m.pending ∨ ∃ r ∈ m.changedBy rows, m.Depends x r
  count : n = (m.changedBy rows).length

/-- Loading series changes only what rows name if they give these series, and what else is loaded
    compares equal to what is bound. -/
theorem Loaded.loads {rows : List (Reference × Series Float)} (h : Loaded m done m' n)
    (hnd : (done.map Prod.fst).Nodup) (hrows : ∀ r values, lastValues rows r = some values → (r, values) ∈ done)
    (hrest : ∀ b ∈ done, lastValues rows b.1 = some b.2 ∨ lastValues rows b.1 = none ∧ m.binds b.1 b.2 = true) :
    Loads rows m m' n where
  named r values hr := by
    have hbound := h.bound (r, values) (hrows r values hr)
    cases hb : m.binds r values with
    | true =>
      obtain ⟨s, hs, hsame⟩ := binds_iff.mp hb
      rw [hb, if_pos rfl, hs] at hbound
      exact ⟨s, hbound, .inr hsame⟩
    | false =>
      rw [hb, if_neg Bool.false_ne_true] at hbound
      exact ⟨values, hbound, .inl rfl⟩
  others r hr := by
    by_cases hin : r ∈ done.map Prod.fst
    · obtain ⟨b, hb, rfl⟩ := List.mem_map.mp hin
      rcases hrest b hb with hsome | ⟨-, hbinds⟩
      · exact nomatch hr.symm.trans hsome
      · rw [h.bound b hb, if_pos hbinds]
    · exact h.others hin
  pending x hx := by
    refine (h.pending hx).imp_right fun ⟨b, hb, hbinds, hdepends⟩ => ⟨b.1, ?_, hdepends⟩
    exact (mem_changedBy_iff_loaded hrows hrest).mpr ⟨b, hb, hbinds, rfl⟩
  count := by
    -- Both lists hold the same references, each once.
    have hperm : ((done.filter fun b => !m.binds b.1 b.2).map Prod.fst).Perm (m.changedBy rows) := by
      refine (List.perm_ext_iff_of_nodup (hnd.sublist (List.filter_sublist.map _)) (nodup_changedBy m rows)).mpr
        fun r => ?_
      simp only [mem_changedBy_iff_loaded hrows hrest, List.mem_map, List.mem_filter, Bool.not_eq_true', and_assoc]
    rw [h.count, ← hperm.length_eq, List.length_map]

/-- A file that the reader accepts is loaded: as if it began with rows for the time constants. -/
theorem exists_loadInputs (hm : m.Coherent) (hf : m.Fitting) {bs : List UInt8} {inputs : SeriesMap Float}
    (h : readInputs .standard m.timeline bs = .ok inputs) :
    ∃ m' n, m.loadInputs bs = .ok (m', n) ∧ Loaded m inputs.bindings.toList m' n := by
  obtain ⟨_, -, hp, -⟩ := Csv.readInputs_eq_ok h
  have hlengths : ∀ b ∈ inputs.bindings.toList, b.2.length = m.series.periods := fun b hb => by
    rw [inputs.length_eq (SeriesMap.mem_toList_bindings.mp hb), hp, hf.periods]
    rfl
  obtain ⟨m', n, hfold, hloaded⟩ := (Loaded.nil hm).foldlM (SeriesMap.nodup_toList_bindings inputs) hlengths
  refine ⟨m', n, ?_, hloaded⟩
  rw [loadInputs, h]
  exact hfold

theorem changedBy_subset (m : Model) (rows rows' : List (Reference × Series Float)) :
    m.changedBy rows ⊆ m.changedBy (rows' ++ rows) := by
  intro r hr
  obtain ⟨values, hvalues, hbinds⟩ := mem_changedBy.mp hr
  exact mem_changedBy.mpr ⟨values, by rw [Csv.lastValues_append, hvalues, Option.some_or], hbinds⟩

/-- The time constants that no row names are bound to series that compare equal to their own. -/
def KeepsConstants (m : Model) (rows : List (Reference × Series Float)) : Prop :=
  ∀ c r values, SeriesMap.constantBinding m.timeline c = (r, values) → lastValues rows r = none →
    m.binds r values = true

theorem keepsConstants_of_length {rows : List (Reference × Series Float)}
    (h : (m.changedBy (constantRows m.timeline ++ rows)).length = (m.changedBy rows).length) : m.KeepsConstants rows := by
  intro c r values hc hnone
  by_contra hbinds
  -- As many references change with the rows of the time constants as without: the same ones.
  have hperm := ((nodup_changedBy m rows).subperm (changedBy_subset m rows (constantRows m.timeline))).perm_of_length_le
    h.le
  have hin : r ∈ m.changedBy rows := by
    refine hperm.mem_iff.mpr (mem_changedBy.mpr ⟨values, ?_, Bool.eq_false_iff.mpr hbinds⟩)
    rw [Csv.lastValues_append, hnone, Option.none_or, Csv.lastValues_constantRows_eq_some_iff.mpr ⟨c, hc⟩]
  obtain ⟨_, hsome, -⟩ := mem_changedBy.mp hin
  exact nomatch hnone.symm.trans hsome

theorem exists_loads (hm : m.Coherent) (hf : m.Fitting) {bs : List UInt8} {inputs : SeriesMap Float}
    (h : readInputs .standard m.timeline bs = .ok inputs) :
    ∃ m' n rows, m.loadInputs bs = .ok (m', n) ∧ rows? .standard bs = some rows ∧
      Loads (constantRows m.timeline ++ rows) m m' n ∧ (Loads rows m m' n ↔ m.KeepsConstants rows) := by
  obtain ⟨m', n, hload, hloaded⟩ := exists_loadInputs hm hf h
  obtain ⟨rows, hrows, -, hget⟩ := Csv.readInputs_eq_ok h
  have hmem : ∀ r values, (r, values) ∈ inputs.bindings.toList ↔
      lastValues (constantRows m.timeline ++ rows) r = some values := fun r values => by
    rw [SeriesMap.mem_toList_bindings, hget]
  have hnd := SeriesMap.nodup_toList_bindings inputs
  have hall : Loads (constantRows m.timeline ++ rows) m m' n :=
    hloaded.loads hnd (fun r values => (hmem r values).mpr) fun b hb => .inl ((hmem b.1 b.2).mp hb)
  refine ⟨m', n, rows, hload, hrows, hall, fun hl => keepsConstants_of_length (hall.count.symm.trans hl.count),
    fun hk => hloaded.loads hnd (fun r values hr => (hmem r values).mpr ?_) fun b hb => ?_⟩
  · rw [Csv.lastValues_append, hr, Option.some_or]
  · have hb := (hmem b.1 b.2).mp hb
    rw [Csv.lastValues_append] at hb
    cases hr : lastValues rows b.1 with
    | some values =>
      rw [hr, Option.some_or] at hb
      exact .inl hb
    | none =>
      rw [hr, Option.none_or] at hb
      obtain ⟨c, hc⟩ := Csv.lastValues_constantRows_eq_some_iff.mp hb
      exact .inr ⟨rfl, hk c b.1 b.2 hc hr⟩

/-- Loading a file works as if the file began with a row for each time constant. It changes only what the
    file names exactly if all other time constants are bound to series that compare equal to their own. -/
theorem loadInputs_loads {allowed : Operation → Prop} (h : Reached allowed m) {bs : List UInt8}
    (hload : m.loadInputs bs = .ok (m', n)) :
    ∃ rows, rows? .standard bs = some rows ∧ Loads (constantRows m.timeline ++ rows) m m' n ∧
      (Loads rows m m' n ↔ m.KeepsConstants rows) := by
  obtain ⟨past, hs⟩ := h.sound
  cases hread : readInputs .standard m.timeline bs with
  | error fault =>
    rw [loadInputs, hread] at hload
    cases hload
  | ok inputs =>
    obtain ⟨m₁, n₁, rows, hload₁, hloads⟩ := exists_loads hs.toCoherent h.fitting hread
    obtain ⟨rfl, rfl⟩ := Prod.mk.inj (Except.ok.inj (hload₁.symm.trans hload))
    exact ⟨rows, hloads⟩

/-! ### Histories with files -/

theorem Reached.loadSeries {allowed : Operation → Prop} {state state' : Model × Nat} (h : Reached allowed state.1)
    (ha : allowed (.setSeries b.1 b.2)) (hload : loadSeries state b = .ok state') : Reached allowed state'.1 := by
  unfold Model.loadSeries at hload
  dsimp only at hload
  split at hload
  · cases hload
    exact h
  · obtain ⟨m', hset, hload⟩ := bind_eq_ok_iff.mp hload
    cases hload
    have hafter : state.1.after (.setSeries b.1 b.2) = m' := by
      rw [Model.after, Operation.apply, hset]
    exact hafter ▸ h.after ha

/-- Loading a file is a history of bindings. -/
theorem Reached.loadInputs {allowed : Operation → Prop} {bs : List UInt8} (h : Reached allowed m)
    (ha : ∀ r values, allowed (.setSeries r values)) (hload : m.loadInputs bs = .ok (m', n)) : Reached allowed m' := by
  unfold Model.loadInputs at hload
  split at hload
  · exact foldlM_induct (P := fun state => Reached allowed state.1) (fun h hload => h.loadSeries (ha _ _) hload) h hload
  · cases hload

/-! ### A file of one row -/

/-- A quarter, and a file that binds one series over it. -/
def row : List UInt8 :=
  "V1,1,1,1".toUTF8.toList

theorem readInputs_row : ∃ values : Series Float, rows? .standard row = some [(⟨.input, [1], none, none⟩, values)] ∧
    ∃ inputs, readInputs .standard (.consecutive ⟨24300⟩ 3) row = .ok inputs := by
  have hbytes : row = [0x56, 0x31, 0x2C, 0x31, 0x2C, 0x31, 0x2C, 0x31] := by cbv
  have hrecords : Csv.records .standard (Csv.withoutByteOrderMark row) = [[[0x56, 0x31], [0x31], [0x31], [0x31]]] := by
    rw [hbytes]
    exact Csv.records_eq_singleton rfl (by cbv)
  have hfields : [[0x56, 0x31], [0x31], [0x31], [0x31]].mapM (Csv.decode .standard) =
      some [['V', '1'], ['1'], ['1'], ['1']] := by cbv
  have hdigit : (Decimal.read? ['1']).isSome = true := by
    unfold Decimal.read?
    rfl
  obtain ⟨x, hx⟩ := Option.isSome_iff_exists.mp hdigit
  have hvalues : [['1'], ['1'], ['1']].mapM Csv.number? = some [x, x, x] := by simp [Csv.number?, hx]
  have hfree : (SeriesMap.ofTimeline (.consecutive ⟨24300⟩ 3) : SeriesMap Float).contains ⟨.input, [1], none, none⟩ =
      false := by
    rw [SeriesMap.contains, SeriesMap.get?_ofTimeline]
    rfl
  obtain ⟨hread, hrows⟩ := Csv.readInputs_singleton rfl hrecords hfields rfl hvalues hfree rfl
  exact ⟨[x, x, x], hrows, hread⟩

/-- The file loaded into a new model. -/
theorem loadInputs_loads_row :
    let m := new (.consecutive ⟨24300⟩ 3) .standard
    Reached (fun _ => True) m ∧ ∃ m' n, m.loadInputs row = .ok (m', n) ∧
      ∃ rows, rows? .standard row = some rows ∧ Loads (constantRows m.timeline ++ rows) m m' n ∧
        (Loads rows m m' n ↔ m.KeepsConstants rows) := by
  intro m
  obtain ⟨values, -, inputs, hread⟩ := readInputs_row
  have h : Reached (fun _ => True) m := .new _ _
  obtain ⟨m', n, hload, -⟩ := exists_loadInputs (.new _ _) h.fitting hread
  exact ⟨h, m', n, hload, loadInputs_loads h hload⟩

/-- The same model after a time constant was unbound. -/
def unbound : Model :=
  (new (.consecutive ⟨24300⟩ 3) .standard).after (.removeInput "T.DiM")

theorem get?_removeSeries (m : Model) (r : Reference) : (m.removeSeries r).1.series.get? r = none := by
  unfold removeSeries
  split
  · exact (SeriesMap.get?_erase m.series r r).trans (if_pos rfl)
  · next h => exact h

theorem get?_unbound : unbound.series.get? (.timeConstant "DiM") = none := by
  have hread : readReference "T.DiM" = .ok (.timeConstant "DiM") := by cbv
  have happly (m : Model) : Operation.apply m (.removeInput "T.DiM") = .ok (m.removeSeries (.timeConstant "DiM")).1 := by
    rw [Operation.apply, removeInput, hread]
    rfl
  rw [unbound, after, happly]
  exact get?_removeSeries _ _

/-- The file binds the time constant again, and counts it. -/
theorem not_loads_unbound : Reached (fun _ => True) unbound ∧ ∃ m' n rows, unbound.loadInputs row = .ok (m', n) ∧
    rows? .standard row = some rows ∧ ¬ Loads rows unbound m' n := by
  have h : Reached (fun _ => True) unbound := (Reached.new _ _).after trivial
  obtain ⟨past, hs⟩ := h.sound
  obtain ⟨values, hrows, inputs, hread⟩ := readInputs_row
  have ht : unbound.timeline = .consecutive ⟨24300⟩ 3 := rfl
  obtain ⟨m', n, rows, hload, hrows', -, hiff⟩ := exists_loads hs.toCoherent h.fitting (ht ▸ hread)
  refine ⟨h, m', n, rows, hload, hrows', fun hl => ?_⟩
  obtain rfl := Option.some.inj (hrows.symm.trans hrows')
  have hbinds := hiff.mp hl .daysInMonth (.timeConstant "DiM") _ rfl rfl
  rw [binds, get?_unbound] at hbinds
  cases hbinds

end MonthlyModel.Model
