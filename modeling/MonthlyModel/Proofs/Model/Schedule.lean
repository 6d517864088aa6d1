import Mathlib.Data.Set.Card
import MonthlyModel.Proofs.Model.Memoization

/-! What a recompute handles.

A recompute goes through the order of evaluation and passes over what is not pending. What is left of
the order is a schedule: each pending calculation once, after the pending ones that it reads. The counts
of a recompute are read off the schedule, one calculation at a time. -/

namespace MonthlyModel.Model

open Formula (Evaluation evaluateText namedCalculations)
open Relation

variable {m m' : Model} {id x y : CalculationId} {memoizes : Bool} {o : Dependency.EvaluationOrder}
  {p q : Progress} {done ids : List CalculationId}

/-! ### The schedule -/

/-- Brings a calculation up to date, whether it is pending or not. -/
def Progress.process (memoizes : Bool) (o : Dependency.EvaluationOrder) (p : Progress) (id : CalculationId) :
    Progress :=
  match p.model.entry? id with
  | some e => p.update memoizes e (o.cycleOf? id)
  | none => p

theorem step_of_pending (h : id ∈ p.model.pending) : p.step memoizes o id = p.process memoizes o id := by
  unfold Progress.step Progress.process
  rw [Std.TreeSet.contains_iff_mem.mpr h]
  rfl

theorem step_of_not_pending (h : id ∉ p.model.pending) : p.step memoizes o id = p := by
  unfold Progress.step
  cases p.model.entry? id with
  | none => rfl
  | some e => exact if_neg (mt Std.TreeSet.contains_iff_mem.mp h)

/-- Going through a list brings up to date what is pending of it, and nothing else. -/
theorem foldl_step_eq (ids : List CalculationId) (p : Progress) : ids.foldl (Progress.step memoizes o) p =
    (ids.filter p.model.pending.contains).foldl (Progress.process memoizes o) p := by
  induction ids generalizing p with
  | nil => rfl
  | cons id ids ih =>
    rw [List.foldl_cons, ih, (step_spec memoizes o p id).sameInputs.pending]
    by_cases hp : id ∈ p.model.pending
    · rw [List.filter_cons_of_pos (Std.TreeSet.contains_iff_mem.mpr hp), List.foldl_cons, step_of_pending hp]
    · rw [List.filter_cons_of_neg (mt Std.TreeSet.contains_iff_mem.mp hp), step_of_not_pending hp]

/-- A list of some calculations, each once and after those among them that it depends on. Calculations
    that depend on each other may come in any order. -/
structure Scheduled (m : Model) (ids : Set CalculationId) (schedule : List CalculationId) : Prop where
  nodup : schedule.Nodup
  mem : ∀ x, x ∈ schedule ↔ x ∈ ids
  after : ∀ x ∈ ids, ∀ y ∈ ids, TransGen m.Reads x y → ¬ TransGen m.Reads y x →
    schedule.idxOf y < schedule.idxOf x

/-- What is pending of the order of evaluation is a schedule. -/
theorem Coherent.scheduled (hm : m.Coherent) :
    m.Scheduled {x | x ∈ m.pending} (m.graph.evaluationOrder.order.filter m.pending.contains) := by
  have hmem (x : CalculationId) : x ∈ m.graph.evaluationOrder.order.filter m.pending.contains ↔ x ∈ m.pending := by
    rw [List.mem_filter, Std.TreeSet.contains_iff_mem, Dependency.Graph.mem_order, hm.nodes, and_iff_right_of_imp hm.exist]
  refine ⟨(Dependency.Graph.nodup_order m.graph).filter _, hmem, fun x hx y hy hxy hyx => ?_⟩
  have hpairs := (Dependency.Graph.pairwise_order m.graph).filter m.pending.contains
  rw [hm.reads_eq_edge] at hxy hyx
  have hne : x ≠ y := fun h => hyx (h ▸ hxy)
  refine Dependency.Graph.idxOf_lt_of_pairwise hpairs ((hmem x).mpr hx) hne (fun h => ?_) ((hmem y).mpr hy)
  exact hyx ((reflTransGen_iff_eq_or_transGen.mp (h hxy.to_reflTransGen)).resolve_left hne)

/-! ### Counts -/

def fails (m : Model) (id : CalculationId) : Bool :=
  (m.latest id).any (·.error.isSome)

theorem fails_eq {e : Entry} (h : m.entry? id = some e) : m.fails id = e.result.error.isSome := by
  rw [fails, latest_eq_some h, Option.any_some]

theorem StoredAt.fails {memo : Option Memo} {result : Evaluation Float} (h : StoredAt id memo result m m') :
    m'.fails id = result.error.isSome := by
  obtain ⟨_, e', -, he', hstores⟩ := h.here
  rw [fails_eq he', error_of_agrees hstores.agrees]

theorem errors_countError (s : RecomputeStats) (error : Option FormulaError) :
    (s.countError error).errors = s.errors + error.isSome.toNat := by
  cases error <;> rfl

/-- What one calculation adds to the counts: it is on a cycle, or it is kept or evaluated; and it may
    fail. -/
structure Counts (o : Dependency.EvaluationOrder) (id : CalculationId) (p q : Progress) : Prop where
  same : SameInputs p.model q.model
  calculations : q.stats.calculations = p.stats.calculations
  cycles : q.stats.cycles = p.stats.cycles
  handled : q.stats.evaluated + q.stats.reused + (o.cycleOf? id).isSome.toNat = p.stats.evaluated + p.stats.reused + 1
  errors : q.stats.errors = p.stats.errors + (q.model.fails id).toNat
  others : ∀ x, x ≠ id → q.model.entry? x = p.model.entry? x

theorem process_counts (hid : p.model.contains id = true) : Counts o id p (p.process memoizes o id) := by
  obtain ⟨e, he⟩ := contains_iff.mp hid
  obtain rfl := id_of_found he
  unfold Progress.process
  rw [he]
  dsimp only
  unfold Progress.update
  cases hc : o.cycleOf? e.id with
  | some cycle =>
    have hs : StoredAt e.id none (.failed p.model.periods (.circular cycle)) p.model _ := store_spec he
    refine ⟨hs.toSameInputs, rfl, rfl, by rw [hc]; rfl, ?_, fun x hx => hs.others hx⟩
    rw [hs.fails]
    exact errors_countError ..
  | none =>
    dsimp only
    split
    · refine ⟨.refl _, rfl, rfl, by rw [hc]; rfl, ?_, fun x _ => rfl⟩
      rw [fails_eq he]
      exact errors_countError ..
    · have hs : StoredAt e.id (some (p.model.memo e)) (evaluateText p.model.context e.calculation.formula.toList)
          p.model _ := store_spec he
      refine ⟨hs.toSameInputs, rfl, rfl, ?_, ?_, fun x hx => hs.others hx⟩
      · rw [hc]
        exact Nat.succ_add p.stats.evaluated p.stats.reused
      · rw [hs.fails]
        exact errors_countError ..

/-- The counts after a part of a schedule. -/
structure Tally (o : Dependency.EvaluationOrder) (done : List CalculationId) (p q : Progress) : Prop where
  same : SameInputs p.model q.model
  calculations : q.stats.calculations = p.stats.calculations
  cycles : q.stats.cycles = p.stats.cycles
  handled : q.stats.evaluated + q.stats.reused + done.countP (fun x => (o.cycleOf? x).isSome) =
    p.stats.evaluated + p.stats.reused + done.length
  errors : q.stats.errors = p.stats.errors + done.countP q.model.fails
  others : ∀ x, x ∉ done → q.model.entry? x = p.model.entry? x

namespace Tally

theorem start (p : Progress) : Tally o [] p p :=
  ⟨.refl _, rfl, rfl, rfl, rfl, fun _ _ => rfl⟩

theorem process (h : Tally o done p q) (hid : q.model.contains id = true) (hn : id ∉ done) :
    Tally o (done ++ [id]) p (q.process memoizes o id) := by
  have hc : Counts o id q (q.process memoizes o id) := process_counts hid
  -- The errors are counted as they stand in the end: what is done is not touched again.
  have hdone : done.countP (q.process memoizes o id).model.fails = done.countP q.model.fails := by
    refine List.countP_congr fun x hx => ?_
    rw [fails, latest, hc.others x (ne_of_mem_of_not_mem hx hn), fails, latest]
  refine ⟨h.same.trans hc.same, hc.calculations.trans h.calculations, hc.cycles.trans h.cycles, ?_, ?_, fun x hx => ?_⟩
  · have := h.handled
    have := hc.handled
    rw [List.countP_append, List.countP_singleton, List.length_append, List.length_singleton]
    grind
  · rw [hc.errors, h.errors, List.countP_append, hdone, List.countP_singleton]
    grind
  · rw [List.mem_append, List.mem_singleton, not_or] at hx
    rw [hc.others x hx.2, h.others x hx.1]

theorem foldl (h : Tally o done p q) (hids : ∀ id ∈ ids, q.model.contains id = true) (hn : (done ++ ids).Nodup) :
    Tally o (done ++ ids) p (ids.foldl (Progress.process memoizes o) q) := by
  induction ids generalizing done q with
  | nil =>
    rw [List.append_nil]
    exact h
  | cons id ids ih =>
    have hid : id ∉ done := fun hmem => List.disjoint_of_nodup_append hn hmem List.mem_cons_self
    have hnext : Tally o (done ++ [id]) p (q.process memoizes o id) := h.process (hids id List.mem_cons_self) hid
    rw [List.append_cons] at hn ⊢
    refine ih hnext (fun x hx => ?_) hn
    rw [(hnext.same.symm.trans h.same).symm.contains]
    exact hids x (List.mem_cons_of_mem _ hx)

end Tally

theorem ncard_of_nodup {α : Type} {xs : List α} (h : xs.Nodup) (f : α → Bool) :
    {x | x ∈ xs ∧ f x = true}.ncard = xs.countP f := by
  classical
  have hset : {x | x ∈ xs ∧ f x = true} = ((xs.filter f).toFinset : Set α) := by
    ext x
    simp
  rw [hset, Set.ncard_coe_finset, List.toFinset_card_of_nodup (h.filter f), List.countP_eq_length_filter]

theorem Scheduled.countP {ids : Set CalculationId} {schedule : List CalculationId} (h : m.Scheduled ids schedule)
    (f : CalculationId → Bool) : schedule.countP f = {x | x ∈ ids ∧ f x = true}.ncard := by
  rw [← ncard_of_nodup h.nodup]
  simp only [h.mem]

theorem Scheduled.length {ids : Set CalculationId} {schedule : List CalculationId} (h : m.Scheduled ids schedule) :
    schedule.length = ids.ncard := by
  simpa using h.countP fun _ => true

/-- The reference cycles through a calculation, as one set: what it depends on and what depends on it.
    The set is empty if the calculation does not depend on itself. -/
def cycleThrough (m : Model) (x : CalculationId) : Set CalculationId :=
  {y | TransGen m.Reads x y ∧ TransGen m.Reads y x}

theorem mem_cycleThrough_iff (hcycle : TransGen m.Reads x x) :
    y ∈ m.cycleThrough x ↔ ReflTransGen m.Reads x y ∧ ReflTransGen m.Reads y x :=
  ⟨fun ⟨hxy, hyx⟩ => ⟨hxy.to_reflTransGen, hyx.to_reflTransGen⟩, fun ⟨hxy, hyx⟩ =>
    ⟨hcycle.trans_left hxy, TransGen.trans_right hyx hcycle⟩⟩

theorem Charted.setOf_component (hm : m.Charted) {c : List CalculationId} (hc : m.graph.IsComponent c) (hx : x ∈ c)
    (hcycle : TransGen m.Reads x x) : {y | y ∈ c} = m.cycleThrough x := by
  ext y
  rw [mem_cycleThrough_iff hcycle, hm.reads_eq_edge]
  exact hc.mem_iff hx

/-- The cycle of a calculation is its reference cycle, listed in ascending order. -/
theorem Charted.cycleOf?_eq_some_iff (hm : m.Charted) {c : List CalculationId} :
    m.graph.evaluationOrder.cycleOf? x = some c ↔
      TransGen m.Reads x x ∧ c.Pairwise (· < ·) ∧ {y | y ∈ c} = m.cycleThrough x := by
  rw [Dependency.Graph.cycleOf?_eq_some_iff, ← hm.reads_eq_edge]
  constructor
  · rintro ⟨hcycle, hc, hx⟩
    exact ⟨hcycle, hc.ascending, hm.setOf_component hc hx hcycle⟩
  · rintro ⟨hcycle, hascending, hmem⟩
    have hmem (y : CalculationId) : y ∈ c ↔ y ∈ m.cycleThrough x := Set.ext_iff.mp hmem y
    obtain ⟨y, hread, -⟩ := TransGen.head'_iff.mp hcycle
    refine ⟨hcycle, ⟨hascending, x, hm.nodes.mpr hread.1.contains, fun y => ?_⟩, (hmem x).mpr ⟨hcycle, hcycle⟩⟩
    rw [hmem, mem_cycleThrough_iff hcycle, hm.reads_eq_edge]

theorem Charted.reads_of_mem_cycles (hm : m.Charted) {c : List CalculationId} (hc : c ∈ m.graph.evaluationOrder.cycles) :
    m.graph.IsComponent c ∧ ∀ x ∈ c, TransGen m.Reads x x := by
  obtain ⟨hc, v, hv, hcycle⟩ := Dependency.Graph.mem_cycles.mp hc
  refine ⟨hc, fun x hx => ?_⟩
  obtain ⟨hxv, hvx⟩ := (hc.mem_iff hx).mp hv
  rw [hm.reads_eq_edge]
  exact (TransGen.trans_right hxv hcycle).trans_left hvx

theorem Charted.exists_mem_cycles (hm : m.Charted) (hcycle : TransGen m.Reads x x) :
    ∃ c ∈ m.graph.evaluationOrder.cycles, x ∈ c := by
  obtain ⟨c, hc⟩ := Option.ne_none_iff_exists'.mp fun h => hm.cycleOf?_eq_none_iff.mp h hcycle
  obtain ⟨hcycle, hcomponent, hxc⟩ := Dependency.Graph.cycleOf?_eq_some_iff.mp hc
  exact ⟨c, Dependency.Graph.mem_cycles.mpr ⟨hcomponent, x, hxc, hcycle⟩, hxc⟩

/-- The cycles that a recompute counts are the reference cycles that have a pending member. -/
theorem Coherent.countP_cycles (hm : m.Coherent) :
    m.graph.evaluationOrder.cycles.countP (·.any m.pending.contains) =
      (m.cycleThrough '' {x | x ∈ m.pending ∧ TransGen m.Reads x x}).ncard := by
  rw [← ncard_of_nodup (Dependency.Graph.nodup_cycles m.graph)]
  -- A cycle is listed once, and it is the same set for all its members.
  have himage : m.cycleThrough '' {x | x ∈ m.pending ∧ TransGen m.Reads x x} = (fun c : List CalculationId => {y | y ∈ c}) ''
      {c | c ∈ m.graph.evaluationOrder.cycles ∧ c.any m.pending.contains = true} := by
    ext s
    constructor
    · rintro ⟨x, ⟨hx, hcycle⟩, rfl⟩
      obtain ⟨c, hc, hxc⟩ := hm.exists_mem_cycles hcycle
      refine ⟨c, ⟨hc, ?_⟩, hm.setOf_component (hm.reads_of_mem_cycles hc).1 hxc hcycle⟩
      exact List.any_eq_true.mpr ⟨x, hxc, Std.TreeSet.contains_iff_mem.mpr hx⟩
    · rintro ⟨c, ⟨hc, hany⟩, rfl⟩
      obtain ⟨x, hxc, hx⟩ := List.any_eq_true.mp hany
      obtain ⟨hcomponent, hcycles⟩ := hm.reads_of_mem_cycles hc
      exact ⟨x, ⟨Std.TreeSet.contains_iff_mem.mp hx, hcycles x hxc⟩, (hm.setOf_component hcomponent hxc (hcycles x hxc)).symm⟩
  rw [himage]
  refine (Set.InjOn.ncard_image ?_).symm
  rintro c ⟨hc, hany⟩ c' ⟨hc', -⟩ heq
  obtain ⟨x, hx, -⟩ := List.any_eq_true.mp hany
  have hx' : x ∈ c' := (Set.ext_iff.mp heq x).mp hx
  exact (hm.reads_of_mem_cycles hc).1.eq_of_mem (hm.reads_of_mem_cycles hc').1 hx hx'

/-! ### Recomputing -/

/-- A recompute that handles some calculations, each once, and no other. -/
structure Handles (m : Model) (memoizes : Bool) (ids : Set CalculationId) (after : Model × RecomputeStats) :
    Prop where
  once : ∃ (schedule : List CalculationId) (pending : Std.TreeSet CalculationId) (stats : RecomputeStats) (p : Progress),
    m.Scheduled ids schedule ∧ (∀ x, x ∈ pending ↔ x ∈ ids) ∧
      schedule.foldl (Progress.process memoizes m.graph.evaluationOrder) ⟨{ m with pending := pending }, stats⟩ = p ∧
      after = ({ p.model with pending := ∅ }, p.stats)
  pending : after.1.pending = ∅
  calculations : after.2.calculations = m.entries.length
  handled : after.2.evaluated + after.2.reused + {x | x ∈ ids ∧ TransGen m.Reads x x}.ncard = ids.ncard
  errors : after.2.errors = {x | x ∈ ids ∧ ∃ result, after.1.result x = .ok result ∧ result.error ≠ none}.ncard
  cycles : after.2.cycles = (m.cycleThrough '' {x | x ∈ ids ∧ TransGen m.Reads x x}).ncard
  others : ∀ x, x ∉ ids → entry? after.1 x = m.entry? x

theorem fails_iff (hp : m.pending.isEmpty = true) :
    m.fails x = true ↔ ∃ result, m.result x = .ok result ∧ result.error ≠ none := by
  rw [result_eq hp, fails]
  cases m.latest x with
  | none => simp
  | some result => simp [Option.isSome_iff_ne_none]

theorem run_handles (hm : m.Coherent) (memoizes : Bool) : m.Handles memoizes {x | x ∈ m.pending} (m.run memoizes) := by
  have hs := hm.scheduled
  generalize hschedule : m.graph.evaluationOrder.order.filter m.pending.contains = schedule at hs
  let start : Progress := ⟨m, ⟨m.entries.length, 0, 0, 0, m.graph.evaluationOrder.cycles.countP (·.any m.pending.contains)⟩⟩
  obtain ⟨p, hp⟩ : ∃ p, schedule.foldl (Progress.process memoizes m.graph.evaluationOrder) start = p := ⟨_, rfl⟩
  -- A run follows the schedule, and then nothing is pending.
  have hrun : m.run memoizes = ({ p.model with pending := ∅ }, p.stats) := by
    rw [← hp, ← hschedule]
    exact congrArg (fun p : Progress => ({ p.model with pending := ∅ }, p.stats)) (foldl_step_eq _ start)
  have htally : Tally m.graph.evaluationOrder schedule start p := hp ▸ (Tally.start start).foldl
    (fun x hx => hm.exist ((hs.mem x).mp hx)) hs.nodup
  have hcycle (x : CalculationId) : (m.graph.evaluationOrder.cycleOf? x).isSome = true ↔ TransGen m.Reads x x := by
    rw [Option.isSome_iff_ne_none, ne_eq, hm.cycleOf?_eq_none_iff, not_not]
  rw [hrun]
  refine ⟨⟨schedule, m.pending, start.stats, p, hs, fun _ => Iff.rfl, hp, rfl⟩, rfl, htally.calculations, ?_, ?_,
    htally.cycles.trans hm.countP_cycles, fun x hx => htally.others x (mt (hs.mem x).mp hx)⟩
  · have hhandled := htally.handled
    rw [hs.countP, hs.length] at hhandled
    simp only [hcycle] at hhandled
    exact hhandled.trans (Nat.zero_add _)
  · have herrors := htally.errors
    rw [hs.countP] at herrors
    have hfails (x : CalculationId) := @fails_iff { p.model with pending := ∅ } x rfl
    simp only [← hfails]
    exact herrors.trans (Nat.zero_add _)

theorem Handles.of_pending {pending : Std.TreeSet CalculationId} {ids : Set CalculationId} {after : Model × RecomputeStats}
    (h : Handles { m with pending := pending } memoizes ids after) : m.Handles memoizes ids after where
  once := by
    obtain ⟨schedule, pending, stats, p, hs, hmem, hp, hafter⟩ := h.once
    exact ⟨schedule, pending, stats, p, ⟨hs.nodup, hs.mem, hs.after⟩, hmem, hp, hafter⟩
  pending := h.pending
  calculations := h.calculations
  handled := h.handled
  errors := h.errors
  cycles := h.cycles
  others := h.others

/-- What a recompute brings up to date: all that was pending or that reads a calculation of the list,
    or all calculations if the model is so set. -/
def affected (m : Model) (changed : List CalculationId) : Set CalculationId :=
  {x | m.contains x = true ∧ (m.options.recomputesAll = true ∨ x ∈ m.pending ∨ ∃ s ∈ changed, ReflTransGen m.Names x s)}

theorem Coherent.mem_all (hm : m.Coherent) : x ∈ m.pending.insertMany m.ids ↔ m.contains x = true := by
  rw [Std.TreeSet.mem_insertMany_list, List.contains_iff_mem, ← contains_iff_mem_ids]
  exact or_iff_right_of_imp hm.exist

theorem Coherent.withAll (hm : m.Coherent) : Coherent { m with pending := m.pending.insertMany m.ids } :=
  hm.withPending (fun _ hx => hm.mem_all.mp hx) fun _ _ hn _ => hm.mem_all.mpr hn.contains

theorem recomputeAll_handles (hm : m.Coherent) : m.Handles false {x | m.contains x = true} m.recomputeAll := by
  have h := (run_handles hm.withAll false).of_pending
  simp only [hm.mem_all] at h
  exact h

theorem Coherent.handles_of_recompute (hm : m.Coherent) {changed : List CalculationId} {after : Model × RecomputeStats}
    (h : m.recompute changed = .ok after) :
    m.Handles (m.options.memoizes && !m.options.recomputesAll) (m.affected changed) after := by
  obtain ⟨_, -, hrun⟩ := bind_eq_ok_iff.mp h
  have hrun := Except.ok.inj hrun
  have hmarked := hm.markPending changed
  split at hrun
  · next hall =>
    have hall : m.options.recomputesAll = true := hall
    have haffected : m.affected changed = {x | m.contains x = true} := by
      simp [affected, hall]
    rw [hall, Bool.not_true, Bool.and_false, haffected, ← hrun]
    exact (recomputeAll_handles hmarked).of_pending
  · next hall =>
    have hall : m.options.recomputesAll = false := Bool.eq_false_iff.mpr hall
    have haffected : m.affected changed = {x | x ∈ (m.markPending changed).pending} := by
      ext x
      change _ ↔ x ∈ (m.markPending changed).pending
      rw [mem_markPending, hm.mem_downstream]
      -- Marking adds what reads the list. What was pending before exists already.
      have hexist : x ∈ m.pending → m.contains x = true := hm.exist
      simp only [affected, hall, Set.mem_ofPred_eq]
      grind
    rw [hall, Bool.not_false, Bool.and_true, haffected, ← hrun]
    exact (run_handles hmarked m.options.memoizes).of_pending

/-- A recompute brings up to date all that is pending once it has marked the calculations of its list
    and what reads them, each once and after what it depends on outside of its own cycle. Afterwards
    nothing is pending, the counts say what was done, and all other calculations are as they were. A
    recompute of everything does the same with all calculations. -/
theorem recompute_handles {allowed : Operation → Prop} (h : Reached allowed m) :
    (∀ changed m' stats, m.recompute changed = .ok (m', stats) →
      m.Handles (m.options.memoizes && !m.options.recomputesAll) (m.affected changed) (m', stats)) ∧
      m.Handles false {x | m.contains x = true} m.recomputeAll := by
  obtain ⟨past, hs⟩ := h.sound
  have hm := hs.toCoherent
  exact ⟨fun _ _ _ hrecompute => hm.handles_of_recompute hrecompute, recomputeAll_handles hm⟩

/-- Two calculations that name each other, one that names the first of them, and one that names none. -/
def tangle : Model :=
  ((((new (.consecutive ⟨24300⟩ 3) ⟨false, false⟩).after
    (.addCalculation (.ofFormula 1 "Loop" "R2"))).after
    (.addCalculation (.ofFormula 2 "Back" "R1"))).after
    (.addCalculation (.ofFormula 3 "Total" "CUMSUM(R1)"))).after
    (.addCalculation (.ofFormula 4 "Days" "T.DiM"))

/-- The same calculations after a recompute without memos. -/
def entangled : Model :=
  (tangle.after (.recompute [])).after (.setOptions .standard)

theorem entangled_reached : Reached (fun _ => True) entangled :=
  ((((((Reached.new _ _).after trivial).after trivial).after trivial).after trivial).after trivial).after trivial

theorem tangle_calculations : tangle.calculations = [.ofFormula 1 "Loop" "R2", .ofFormula 2 "Back" "R1",
    .ofFormula 3 "Total" "CUMSUM(R1)", .ofFormula 4 "Days" "T.DiM"] := by
  rw [tangle, calculations, (after_addCalculation rfl).2.1, (after_addCalculation rfl).2.1, (after_addCalculation rfl).2.1,
    (after_addCalculation rfl).2.1]
  rfl

theorem tangle_sameFormulas : SameFormulas tangle entangled := by
  rw [entangled, after_recompute (m := tangle) rfl]
  exact ((SameFormulas.markPending tangle []).trans (run_sameFormulas _ false)).trans (.of_entries rfl rfl)

theorem entangled_contains (x : CalculationId) :
    entangled.contains x = true ↔ x ∈ ([1, 2, 3, 4] : List CalculationId) := by
  have hids : tangle.ids = tangle.calculations.map (·.id) := by simp [ids, calculations, Entry.id]
  rw [tangle_sameFormulas.contains, contains_iff_mem_ids, hids, tangle_calculations]
  rfl

theorem entangled_names (x y : CalculationId) :
    entangled.Names x y ↔ x = 1 ∧ y = 2 ∨ x = 2 ∧ y = 1 ∨ x = 3 ∧ y = 1 := by
  have h₁ : namedCalculations "R2".toList = [2] := by cbv
  have h₂ : namedCalculations "R1".toList = [1] := by cbv
  have h₃ : namedCalculations "CUMSUM(R1)".toList = [1] := by cbv
  have h₄ : namedCalculations "T.DiM".toList = [] := by cbv
  rw [tangle_sameFormulas.names, names_iff_exists_calculation, tangle_calculations]
  simp only [Calculation.ofFormula, List.mem_cons, List.not_mem_nil, or_false, exists_eq_or_imp, exists_eq_left,
    h₁, h₂, h₃, h₄, and_false]
  simp only [eq_comm]

theorem entangled_reads {x y : CalculationId} (h : x = 1 ∧ y = 2 ∨ x = 2 ∧ y = 1 ∨ x = 3 ∧ y = 1) :
    entangled.Reads x y := by
  refine ⟨(entangled_names x y).mpr h, (entangled_contains y).mpr ?_⟩
  rcases h with ⟨-, rfl⟩ | ⟨-, rfl⟩ | ⟨-, rfl⟩ <;> decide

theorem entangled_reaches (x : CalculationId) : ReflTransGen entangled.Names x 1 ↔ x = 1 ∨ x = 2 ∨ x = 3 := by
  constructor
  · intro h
    rcases ReflTransGen.cases_head h with rfl | ⟨y, hxy, -⟩
    · exact .inl rfl
    · exact ((entangled_names x y).mp hxy).imp And.left (.imp And.left And.left)
  · rintro (rfl | rfl | rfl)
    · exact .refl
    · exact .single (entangled_reads (by decide)).1
    · exact .single (entangled_reads (by decide)).1

theorem entangled_affected : entangled.affected [1] = {1, 2, 3} := by
  ext x
  have hnone : x ∉ entangled.pending := Std.TreeSet.not_mem_of_isEmpty rfl
  have hall : entangled.options.recomputesAll = false := rfl
  simp only [affected, hall, hnone, entangled_contains, entangled_reaches, Set.mem_ofPred_eq, List.mem_singleton,
    exists_eq_left]
  simp
  grind

/-- A recompute of the first calculation brings up to date the two that name each other and the one that
    names the first; the fourth one is left as it is. -/
theorem recompute_handles_entangled : Reached (fun _ => True) entangled ∧ TransGen entangled.Reads 1 1 ∧
    entangled.Reads 3 1 ∧ ∃ m' stats, entangled.recompute [1] = .ok (m', stats) ∧
      entangled.Handles true {1, 2, 3} (m', stats) ∧ entangled.Handles false {1, 2, 3, 4} entangled.recomputeAll := by
  have hloop : TransGen entangled.Reads 1 1 :=
    .head (entangled_reads (y := 2) (by decide)) (.single (entangled_reads (by decide)))
  have hlist : ∀ id ∈ ([1] : List CalculationId), entangled.contains id = true := fun id hid =>
    (entangled_contains id).mpr (List.mem_append_left [2, 3, 4] hid)
  obtain ⟨m', stats, hrecompute⟩ : ∃ m' stats, entangled.recompute [1] = .ok (m', stats) := ⟨_, _, recompute_eq hlist⟩
  have hall : {x | entangled.contains x = true} = {1, 2, 3, 4} := by
    ext x
    simp [entangled_contains]
  obtain ⟨hhandles, heverything⟩ := recompute_handles entangled_reached
  exact ⟨entangled_reached, hloop, entangled_reads (by decide), m', stats, hrecompute,
    entangled_affected ▸ hhandles [1] m' stats hrecompute, hall ▸ heverything⟩

end MonthlyModel.Model
