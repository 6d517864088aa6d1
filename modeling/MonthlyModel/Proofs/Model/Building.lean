import MonthlyModel.Proofs.Model.Content
import MonthlyModel.Proofs.SeriesMap

/-! Building a model in any order.

A model is built from series and calculations with different names, one after the other. What it holds
under a name depends on the part with that name alone, so the order of the parts shows in clocks,
revisions and the shape of the graph at most; and a recompute ends with the same results and the same
counts, although formulas may name calculations that are added later, or each other. -/

namespace MonthlyModel

/-- What a model is built from. -/
inductive Part where
  | input (key : String) (values : Series Float)
  | series (r : Reference) (values : Series Float)
  | calculation (c : Calculation)

inductive PartName where
  | reference (r : Reference)
  | calculation (id : CalculationId)
deriving DecidableEq

namespace Part

def operation : Part → Operation
  | .input key values => .setInput key values
  | .series r values => .setSeries r values
  | .calculation c => .addCalculation c

/-- The reference that a part binds, or the identifier of its calculation. A key that writes no
    reference binds none. -/
def name? : Part → Option PartName
  | .input key _ => (Reference.parse key).toOption.map .reference
  | .series r _ => some (.reference r)
  | .calculation c => some (.calculation c.id)

/-- What is bound under the reference of a part, once the part has been bound over something else. -/
def bindOver (periods : Nat) (bound : Option (Series Float)) : Part → Option (Series Float)
  | .input _ values | .series _ values =>
    if bound.any (sameSeries · values) then bound else if values.length = periods then some values else bound
  | .calculation _ => bound

/-- The entry under the identifier of a part, once the part has been added. -/
def addOver (periods : Nat) (entry : Option Entry) : Part → Option Entry
  | .calculation c => entry.or (some (Entry.new periods c))
  | _ => entry

end Part

/-- Lists that hold the same parts, under different names, have the same part under a name. -/
theorem filter_name_eq {parts parts' : List Part} (hp : parts.Perm parts') (hn : (parts.filterMap Part.name?).Nodup)
    (n : PartName) : parts'.filter (·.name? = some n) = parts.filter (·.name? = some n) := by
  have hlength : (parts.filter (·.name? = some n)).length ≤ 1 := by
    have hcount := List.nodup_iff_count_le_one.mp hn n
    rw [List.count, List.countP_filterMap] at hcount
    rw [← List.countP_eq_length_filter]
    refine Nat.le_trans (List.countP_mono_left fun p _ hp => ?_) hcount
    rw [of_decide_eq_true hp]
    exact beq_self_eq_true n
  have hperm := hp.filter (·.name? = some n)
  generalize parts.filter (·.name? = some n) = here at hlength hperm ⊢
  match here, hlength with
  | [], _ => exact hperm.nil_eq.symm
  | [p], _ => exact List.perm_singleton.mp hperm.symm

/-- A part of a state follows the steps that change it, whatever the other steps are. -/
theorem foldl_filter_eq {σ α β : Type} {f : σ → β} {step : σ → α → σ} {g : β → α → β} {changes : α → Bool}
    {Inv : σ → Prop} (hinv : ∀ s a, Inv s → Inv (step s a))
    (h : ∀ s a, Inv s → f (step s a) = if changes a then g (f s) a else f s) {s : σ} (hs : Inv s) (as : List α) :
    f (as.foldl step s) = (as.filter changes).foldl g (f s) := by
  induction as generalizing s with
  | nil => rfl
  | cons a as ih =>
    rw [List.foldl_cons, ih (hinv s a hs), h s a hs]
    cases hc : changes a with
    | true => rw [List.filter_cons_of_pos hc, List.foldl_cons, if_pos rfl]
    | false => rw [List.filter_cons_of_neg (by simp [hc]), if_neg Bool.false_ne_true]

namespace Model

variable {m m' : Model} {t : Timeline} {o : ModelOptions} {parts parts' : List Part}

def build (t : Timeline) (o : ModelOptions) (parts : List Part) : Model :=
  parts.foldl (fun m p => m.after p.operation) (new t o)

/-- A model on the way of its building: nothing has been recomputed. -/
structure Built (t : Timeline) (o : ModelOptions) (m : Model) : Prop extends m.Whole true where
  timeline : m.timeline = t
  options : m.options = o
  periods : m.series.periods = t.length

/-- A part is bound or added: what is there under other names stays. -/
structure Takes (p : Part) (m m' : Model) : Prop where
  series : ∀ r, m'.series.get? r =
    if p.name? = some (.reference r) then p.bindOver m.series.periods (m.series.get? r) else m.series.get? r
  entry : ∀ x, m'.entry? x =
    if p.name? = some (.calculation x) then p.addOver m.periods (m.entry? x) else m.entry? x

theorem Built.new (t : Timeline) (o : ModelOptions) : (Model.new t o).Built t o where
  toCoherent := .new t o
  pending h := by simp [contains_def, entry?_def, entries, Model.new, Roster.empty] at h
  memo _ {x e} h := by simp [entry?_def, entries, Model.new, Roster.empty] at h
  timeline := rfl
  options := rfl
  periods := by
    change (SeriesMap.ofTimeline t : SeriesMap Float).periods = t.length
    exact SeriesMap.periods_ofTimeline

theorem Built.setSeries (hm : m.Built t o) {r : Reference} {values : Series Float} (h : m.setSeries r values = .ok m') :
    m'.Built t o := by
  have hoptions : m'.options = m.options := by
    unfold Model.setSeries at h
    split at h
    · obtain rfl := Except.ok.inj h
      rfl
    · split at h
      · obtain rfl := Except.ok.inj h
        rfl
      · cases h
  rcases setSeries_spec hm.toCoherent h with rfl | ⟨hr, hc⟩
  · exact hm
  · have hentry (x : CalculationId) : m'.entry? x = m.entry? x := entry?_congr hr.entries
    refine ⟨⟨hc, fun {x} hx => hr.pending (hm.pending ?_), fun hmemoizes {x e} he => ?_⟩, hr.timeline.trans hm.timeline,
      hoptions.trans hm.options, hr.periods.trans hm.periods⟩
    · exact (contains_congr (hentry x)).symm.trans hx
    · exact hm.memo hmemoizes (hentry x ▸ he)

theorem Built.addCalculation (hm : m.Built t o) {c : Calculation} (h : m.addCalculation c = .ok m') : m'.Built t o := by
  have hoptions : m'.options = m.options := by
    unfold Model.addCalculation at h
    split at h
    · cases h
    · obtain rfl := Except.ok.inj h
      rfl
  obtain ⟨he, hc⟩ := addCalculation_spec hm.toCoherent h
  refine ⟨⟨hc, fun {x} hx => he.pending.mpr ⟨hx, ?_⟩, fun hmemoizes {x e} hentry => ?_⟩, he.timeline.trans hm.timeline,
    hoptions.trans hm.options, he.series ▸ hm.periods⟩
  · by_cases hid : x = c.id
    · exact .inr (hid ▸ .refl)
    · exact .inl (hm.pending (he.contains hid ▸ hx))
  · by_cases hid : x = c.id
    · subst hid
      rcases he.here hentry with hnew | ⟨e₀, he₀, hold⟩
      · exact hnew.memo
      · exact hold.memo.trans (hm.memo hmemoizes he₀)
    · exact hm.memo hmemoizes (he.others hid ▸ hentry)

theorem Takes.of_series {r : Reference} {values : Series Float}
    (here : m'.series.get? r = Part.bindOver m.series.periods (m.series.get? r) (.series r values))
    (others : ∀ r', r' ≠ r → m'.series.get? r' = m.series.get? r') (entry : ∀ x, m'.entry? x = m.entry? x) :
    Takes (.series r values) m m' where
  series r' := by
    by_cases hr : r' = r
    · subst hr
      exact here.trans (if_pos rfl).symm
    · exact (others r' hr).trans (if_neg (by simpa [Part.name?] using Ne.symm hr)).symm
  entry x := (entry x).trans (if_neg (by simp [Part.name?])).symm

theorem Takes.of_calculation {c : Calculation} (series : m'.series = m.series)
    (here : m'.entry? c.id = (m.entry? c.id).or (some (Entry.new m.periods c)))
    (others : ∀ x, x ≠ c.id → m'.entry? x = m.entry? x) : Takes (.calculation c) m m' where
  series r := by
    rw [series]
    exact (if_neg (by simp [Part.name?])).symm
  entry x := by
    by_cases hx : x = c.id
    · subst hx
      exact here.trans (if_pos rfl).symm
    · exact (others x hx).trans (if_neg (by simpa [Part.name?] using Ne.symm hx)).symm

theorem takes_setSeries (m : Model) (r : Reference) (values : Series Float) :
    Takes (.series r values) m (m.after (.setSeries r values)) := by
  by_cases hsame : (m.series.get? r).any (sameSeries · values) = true
  · have happly : Operation.apply m (.setSeries r values) = .ok m := if_pos hsame
    rw [after_of_ok happly]
    exact .of_series (if_pos hsame).symm (fun _ _ => rfl) fun _ => rfl
  · have hbind : Part.bindOver m.series.periods (m.series.get? r) (.series r values) =
        if values.length = m.series.periods then some values else m.series.get? r := if_neg hsame
    by_cases hl : values.length = m.series.periods
    · rw [after_of_ok (o := .setSeries r values) (setSeries_eq_ok (by simpa using hsame) hl)]
      refine .of_series ?_ (fun r' hr => ?_) fun x => entry?_congr rfl
      · rw [hbind, if_pos hl]
        exact (SeriesMap.get?_bind (h := hl) ..).trans (if_pos rfl)
      · exact (SeriesMap.get?_bind (h := hl) ..).trans (if_neg (Ne.symm hr))
    · have happly : Operation.apply m (.setSeries r values) = .error (.length ⟨r.text, m.series.periods, values.length⟩) := by
        rw [Operation.apply, setSeries, if_neg hsame, SeriesMap.insert, dif_neg hl]
      rw [after_of_error happly]
      exact .of_series (by rw [hbind, if_neg hl]) (fun _ _ => rfl) fun _ => rfl

theorem takes_addCalculation (m : Model) (c : Calculation) : Takes (.calculation c) m (m.after (.addCalculation c)) := by
  by_cases hc : m.contains c.id = true
  · obtain ⟨e, he⟩ := contains_iff.mp hc
    rw [after_of_error (o := .addCalculation c) (dif_pos hc)]
    exact .of_calculation rfl (by rw [he, Option.some_or]) fun _ _ => rfl
  · rw [after_of_ok (o := .addCalculation c) (dif_neg hc)]
    refine .of_calculation rfl ?_ fun x hx => entry?_add_other rfl hx
    rw [entry?_eq_none hc, Option.none_or]
    exact entry?_add_self hc rfl

theorem after_setInput {key : String} {r : Reference} (h : Reference.parse key = .ok r) (values : Series Float) :
    m.after (.setInput key values) = m.after (.setSeries r values) := by
  have hread : readReference key = .ok r := by rw [readReference, h]
  have happly : Operation.apply m (.setInput key values) = m.setSeries r values :=
    congrArg (· >>= fun r => m.setSeries r values) hread
  rw [after, happly]
  rfl

theorem after_setInput_refused {key : String} {e : ReferenceError} (h : Reference.parse key = .error e)
    (values : Series Float) : m.after (.setInput key values) = m := by
  have hread : readReference key = .error (.reference e) := by rw [readReference, h]
  exact after_of_error (congrArg (· >>= fun r => m.setSeries r values) hread)

theorem takes_part (m : Model) (p : Part) : Takes p m (m.after p.operation) := by
  cases p with
  | input key values =>
    rw [Part.operation]
    cases h : Reference.parse key with
    | ok r =>
      rw [after_setInput h]
      have hs := takes_setSeries m r values
      have hname : (Part.input key values).name? = (Part.series r values).name? := by
        rw [Part.name?, h]
        rfl
      exact ⟨fun r' => by rw [hname]; exact hs.series r', fun x => by rw [hname]; exact hs.entry x⟩
    | error e =>
      rw [after_setInput_refused h]
      have hname : (Part.input key values).name? = none := by
        rw [Part.name?, h]
        rfl
      exact ⟨fun r' => by rw [hname]; rfl, fun x => by rw [hname]; rfl⟩
  | series r values => exact takes_setSeries m r values
  | calculation c => exact takes_addCalculation m c

theorem Built.after (hm : m.Built t o) {operation : Operation}
    (h : ∀ m', operation.apply m = .ok m' → m'.Built t o) : (m.after operation).Built t o := by
  unfold Model.after
  split
  · next m' hm' => exact h m' hm'
  · exact hm

theorem Built.after_part (hm : m.Built t o) (p : Part) : (m.after p.operation).Built t o := by
  cases p with
  | input key values =>
    refine hm.after fun m' h => ?_
    obtain ⟨r, -, h⟩ := bind_eq_ok_iff.mp h
    exact hm.setSeries h
  | series r values => exact hm.after fun m' h => hm.setSeries h
  | calculation c => exact hm.after fun m' h => hm.addCalculation h

theorem built_build (t : Timeline) (o : ModelOptions) (parts : List Part) : (build t o parts).Built t o := by
  have hm : (Model.new t o).Built t o := .new t o
  unfold build
  generalize Model.new t o = m at hm
  induction parts generalizing m with
  | nil => exact hm
  | cons p parts ih => exact ih _ (hm.after_part p)

theorem get?_build (r : Reference) : (build t o parts).series.get? r =
    (parts.filter (·.name? = some (.reference r))).foldl (fun bound p => p.bindOver t.length bound)
      ((new t o).series.get? r) := by
  have hinv (m : Model) (p : Part) (hm : Built t o m) : Built t o (m.after p.operation) := hm.after_part p
  refine foldl_filter_eq (f := fun m : Model => m.series.get? r) hinv (fun m p hm => ?_) (.new t o) parts
  rw [(takes_part m p).series, hm.periods]
  simp only [decide_eq_true_eq]

theorem entry?_build (x : CalculationId) : entry? (build t o parts) x =
    (parts.filter (·.name? = some (.calculation x))).foldl (fun e p => p.addOver t.length e) none := by
  have hinv (m : Model) (p : Part) (hm : Built t o m) : Built t o (m.after p.operation) := hm.after_part p
  refine foldl_filter_eq (f := fun m : Model => m.entry? x) hinv (fun m p hm => ?_) (.new t o) parts
  rw [(takes_part m p).entry, periods, hm.timeline]
  simp only [decide_eq_true_eq]

theorem sameContent_build (hp : parts.Perm parts') (hn : (parts.filterMap Part.name?).Nodup) :
    SameContent (build t o parts) (build t o parts') where
  timeline := (built_build t o parts').timeline.trans (built_build t o parts).timeline.symm
  series r := by rw [get?_build, get?_build, filter_name_eq hp hn]
  entry x := by rw [entry?_build, entry?_build, filter_name_eq hp hn]

/-! ### Recomputing what was built -/

/-- Two recomputes that leave the same results and report the same. -/
structure SameReport (a b : Model × RecomputeStats) : Prop where
  results : ∀ x, b.1.result x = a.1.result x
  stats : b.2 = a.2

theorem SameContent.withPending (h : SameContent m m') (pending pending' : Std.TreeSet CalculationId) :
    SameContent { m with pending := pending } { m' with pending := pending' } :=
  ⟨h.timeline, h.series, h.entry⟩

theorem Whole.markPending (hm : m.Whole true) : (m.markPending []).Whole true where
  toCoherent := hm.toCoherent.markPending []
  pending hx := mem_markPending.mpr (.inl (hm.pending hx))
  memo hmemoizes := hm.memo hmemoizes

theorem SameContent.run {memoizes memoizes' : Bool} (h : SameContent m m') (hm : m.Whole memoizes)
    (hm' : m'.Whole memoizes') : SameReport (m.run memoizes) (m'.run memoizes') :=
  ⟨h.run_result hm hm', h.run_stats hm hm'⟩

/-- Nothing has been computed yet, so a recompute is a run through the model as a whole, whatever the
    options are. -/
theorem Whole.recompute (hm : m.Whole true) : ∃ (pending : Std.TreeSet CalculationId) (memoizes : Bool),
    Whole { m with pending := pending } memoizes ∧ m.recompute [] = .ok (Model.run { m with pending := pending } memoizes) := by
  have hmarked := hm.markPending
  cases ha : m.options.recomputesAll with
  | true => exact ⟨_, false, hmarked.toCoherent.whole_all, congrArg Except.ok (if_pos ha)⟩
  | false => exact ⟨_, m.options.memoizes, hmarked.memoizing _, congrArg Except.ok (if_neg (Bool.eq_false_iff.mp ha))⟩

/-- A model can be built in any order: whatever series and calculations of different names are bound and
    added, and however they are interleaved, a recompute succeeds, every calculation has the same result
    and the counts are the same. So it is with a recompute of everything, which does what a first
    recompute does. -/
theorem build_in_any_order (t : Timeline) (o : ModelOptions) (hp : parts.Perm parts')
    (hn : (parts.filterMap Part.name?).Nodup) :
    ∃ a b, (build t o parts).recompute [] = .ok a ∧ (build t o parts').recompute [] = .ok b ∧ SameReport a b ∧
      SameReport (build t o parts).recomputeAll (build t o parts').recomputeAll ∧
      SameReport a (build t o parts).recomputeAll := by
  have hsame := sameContent_build (t := t) (o := o) hp hn
  have hm := (built_build t o parts).toWhole
  have hm' := (built_build t o parts').toWhole
  have hself : SameContent (build t o parts) (build t o parts) := ⟨rfl, fun _ => rfl, fun _ => rfl⟩
  obtain ⟨pending, memoizes, hw, hrun⟩ := hm.recompute
  obtain ⟨pending', memoizes', hw', hrun'⟩ := hm'.recompute
  exact ⟨_, _, hrun, hrun', (hsame.withPending pending pending').run hw hw',
    (hsame.withPending _ _).run hm.whole_all hm'.whole_all, (hself.withPending pending _).run hw hm.whole_all⟩

/-- A calculation that reads a later one, and the same parts the other way round. -/
theorem build_in_any_order_reversed :
    let parts := [.calculation (.ofFormula 1 "Sum" "R2 + V1"), .input "V1" [1, 2, 4], .calculation (.ofFormula 2 "Copy" "V1")]
    let t := Timeline.consecutive ⟨24300⟩ 3
    parts.Perm parts.reverse ∧ (parts.filterMap Part.name?).Nodup ∧
      ∃ a b, (build t .standard parts).recompute [] = .ok a ∧ (build t .standard parts.reverse).recompute [] = .ok b ∧
        SameReport a b ∧ SameReport (build t .standard parts).recomputeAll (build t .standard parts.reverse).recomputeAll ∧
        SameReport a (build t .standard parts).recomputeAll := by
  intro parts t
  have hp : parts.Perm parts.reverse := parts.reverse_perm.symm
  have hparse : Reference.parse "V1" = .ok ⟨.input, [1], none, none⟩ := by cbv
  have hnames : parts.filterMap Part.name? = [.calculation 1, .reference ⟨.input, [1], none, none⟩, .calculation 2] := by
    simp only [parts, List.filterMap_cons, List.filterMap_nil, Part.name?, hparse]
    rfl
  have hn : (parts.filterMap Part.name?).Nodup := hnames ▸ by decide
  exact ⟨hp, hn, build_in_any_order t .standard hp hn⟩

end Model

end MonthlyModel
