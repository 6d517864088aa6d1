import MonthlyModel.Proofs.Model.Change
import MonthlyModel.Proofs.Model.Settled

/-! No outdated result is readable.

In every history that leaves the names of calculations alone, a calculation that does not wait for a
recompute is settled: whatever options it was recomputed under, and whatever was added, changed,
removed or bound in between. -/

namespace MonthlyModel.Model

open Formula (evaluateText namedCalculations)
open Relation

variable {m m' : Model} {id x : CalculationId}

theorem ReboundAt.sound {r : Reference} {past : Past} (h : ReboundAt r m m') (hc : m'.Coherent)
    (hs : m.Sound past) : ∃ past', m'.Sound past' := by
  obtain ⟨past', hremembers, hextends⟩ := hs.toRemembers.reboundAt h
  have hp : m'.periods = m.periods := congrArg Timeline.length h.timeline
  refine ⟨past', hc, hremembers, hs.toMemoized.reboundAt h hextends, fun he herror => ?_⟩
  rw [entry?_congr h.entries] at he
  exact hp ▸ hs.failed he herror

theorem EditedAt.sound {past : Past} (h : EditedAt id m m') (hc : m'.Coherent) (hs : m.Sound past) :
    m'.Sound past := by
  have hp : m'.periods = m.periods := congrArg Timeline.length h.timeline
  refine ⟨hc, hs.toRemembers.editedAt h, hs.toMemoized.editedAt h, fun {x e error} he herror => ?_⟩
  rw [hp]
  rcases h.entry_cases he with hsame | ⟨e₀, he₀, hsame⟩
  · rw [hsame.result] at herror
    cases herror
  · rw [hsame.result] at herror ⊢
    exact hs.failed he₀ herror

theorem SameResults.sound {past : Past} (h : SameResults m m') (hc : m'.Coherent) (hs : m.Sound past) :
    m'.Sound past := by
  have hperiods : m'.periods = m.periods := congrArg Timeline.length h.timeline
  refine ⟨hc, hs.toRemembers.sameResults h, hs.toMemoized.sameResults h, fun he herror => ?_⟩
  obtain ⟨e, he, hsame⟩ := h.results he
  rw [hsame.result] at herror ⊢
  exact hperiods ▸ hs.failed he herror

theorem Changes.sound {o : Operation} {past : Past} (h : Changes o m m') (hs : m.Sound past) :
    ∃ past', m'.Sound past' := by
  cases h with
  | nothing => exact ⟨past, hs⟩
  | edited h hc => exact ⟨past, h.sound hc hs⟩
  | rebound h hc => exact h.sound hc hs
  | relabelled h _ hc => exact ⟨past, h.sound hc hs⟩
  | ran memoizes _ hc => exact run_sound (hs.withPending hc) memoizes

theorem sound_start (he : m.entries = []) (hr : m.inputRevisions = ∅) (hc : m.Coherent) : ∃ past, m.Sound past := by
  refine ⟨_, hc, .start he hr, ⟨fun h => ?_, fun h => ?_⟩, fun h => ?_⟩
  all_goals simp [entry?_def, he] at h

theorem coherent_ofSeries {t : Timeline} {s : SeriesMap Float} {o : ModelOptions} (h : ofSeries t s o = .ok m) :
    m.entries = [] ∧ m.inputRevisions = ∅ ∧ m.Coherent := by
  unfold ofSeries at h
  split at h
  · next series _ =>
    obtain rfl := Except.ok.inj h
    exact ⟨rfl, rfl, (SameFormulas.withSeries (new t o) series).coherent (.new t o) rfl rfl⟩
  · cases h

/-- All that is known on the way is known of every model that operations lead to. -/
theorem Reached.sound {allowed : Operation → Prop} (h : Reached allowed m) : ∃ past, m.Sound past := by
  refine h.induct (P := fun m => ∃ past, m.Sound past) (fun t o => sound_start rfl rfl (.new t o))
    (fun h => ?_) fun hm _ h => ?_
  · obtain ⟨he, hr, hc⟩ := coherent_ofSeries h
    exact sound_start he hr hc
  · obtain ⟨past, hs⟩ := hm
    exact (apply_changes hs.toCoherent h).sound hs

/-! ### Histories that leave the names of calculations alone -/

/-- No series was bound or unbound under the name of a calculation. -/
def Quiet (m : Model) : Prop :=
  ∀ r : Reference, r.calculation?.isSome = true → m.inputRevisions[r]? = none

theorem Quiet.told (hq : m.Quiet) : m.Told x := by
  intro e _ r _ k hk
  exact .inr (hq r (by rw [hk]; rfl))

theorem family_of_calculation? {r : Reference} (h : r.calculation?.isSome = true) : r.family = .calculation := by
  unfold Reference.calculation? at h
  split at h
  · assumption
  · cases h

/-- What holds in every history that leaves the names of calculations alone. -/
structure Fresh (m : Model) : Prop where
  sound : ∃ past, m.Sound past
  quiet : m.Quiet
  settled : ∀ x, x ∉ m.pending → m.Settled x

theorem EditedAt.settles (h : EditedAt id m m') (hm : ∀ x, x ∉ m.pending → m.Settled x) (hx : x ∉ m'.pending) :
    m'.Settled x := by
  intro e he
  -- What does not become pending does not reach the edited calculation.
  have hreach : ¬ ReflTransGen m'.Names x id := fun hr =>
    hx (h.pending.mpr ⟨contains_iff.mpr ⟨e, he⟩, .inr hr⟩)
  have hold : x ∉ m.pending := fun hp => hx (h.pending.mpr ⟨contains_iff.mpr ⟨e, he⟩, .inl hp⟩)
  exact h.settled hreach (hm x hold) e he

theorem Fresh.run (hm : m.Fresh) {ids : Std.TreeSet CalculationId} (memoizes : Bool) (h : ∀ x ∈ m.pending, x ∈ ids)
    (hc : Coherent { m with pending := ids }) : Fresh (run { m with pending := ids } memoizes).1 := by
  obtain ⟨past, hs⟩ := hm.sound
  have hs := hs.withPending hc
  have hq : Quiet { m with pending := ids } := hm.quiet
  obtain ⟨hpending, hothers⟩ := run_settled hs memoizes fun _ x _ => hq.told
  refine ⟨run_sound hs memoizes, fun r hr => ?_, fun x _ => ?_⟩
  · rw [run_inputRevisions]
    exact hm.quiet r hr
  · by_cases hx : x ∈ ids
    · exact hpending x hx
    · exact hothers x hx (hm.settled x fun hp => hx (h x hp))

theorem Changes.fresh {o : Operation} (h : Changes o m m') (ho : o.SparesCalculations) (hm : m.Fresh) :
    m'.Fresh := by
  obtain ⟨past, hs⟩ := hm.sound
  have hsound := h.sound hs
  cases h with
  | nothing => exact hm
  | edited h hc =>
    exact ⟨hsound, fun r hr => h.inputRevisions ▸ hm.quiet r hr, fun x hx => h.settles hm.settled hx⟩
  | @rebound _ r h hc hfamily =>
    refine ⟨hsound, fun r' hr' => ?_, fun x hx => h.settled hc hx (hm.settled x fun hp => hx (h.pending hp))⟩
    have hne : r ≠ r' := fun he => hfamily ho (he ▸ family_of_calculation? hr')
    rw [h.revisions, Std.TreeMap.getElem?_insert, if_neg (by simpa using hne)]
    exact hm.quiet r' hr'
  | relabelled h hp hc =>
    exact ⟨hsound, fun r hr => h.inputRevisions ▸ hm.quiet r hr, fun x hx => h.settled (hm.settled x (hp ▸ hx))⟩
  | ran memoizes h hc => exact hm.run memoizes h hc

theorem fresh_start (he : m.entries = []) (hr : m.inputRevisions = ∅) (hc : m.Coherent) : m.Fresh := by
  refine ⟨sound_start he hr hc, fun r _ => ?_, fun x _ e h => ?_⟩
  · simp [hr]
  · simp [entry?_def, he] at h

theorem Reached.fresh (h : Reached Operation.SparesCalculations m) : m.Fresh := by
  refine h.induct (fun t o => fresh_start rfl rfl (.new t o)) (fun h => ?_) fun hm ho h => ?_
  · obtain ⟨he, hr, hc⟩ := coherent_ofSeries h
    exact fresh_start he hr hc
  · obtain ⟨past, hs⟩ := hm.sound
    exact (apply_changes hs.toCoherent h).fresh ho hm

/-- In every history that leaves the names of calculations alone, once nothing waits for a recompute,
    every calculation that reads itself has zeros and the error for that, and every other one has the
    value of its formula over the bound series and the results of the others. -/
theorem settled_of_pending_empty (h : Reached Operation.SparesCalculations m) (hp : m.pending.isEmpty = true)
    {e : Entry} (he : e ∈ m.entries) :
    (TransGen m.Reads e.id e.id → ∃ cycle, e.result = .failed m.periods (.circular cycle)) ∧
      (¬ TransGen m.Reads e.id e.id →
        Agrees e.result (evaluateText m.context e.calculation.formula.toList)) := by
  obtain ⟨⟨past, hs⟩, -, hsettled⟩ := h.fresh
  refine hsettled e.id (fun hx => ?_) e (entry?_of_mem he)
  exact absurd hx (Std.TreeSet.not_mem_of_isEmpty hp)

/-- A calculation that names itself, after a recompute: it has zeros and the error for that. -/
theorem settled_of_pending_empty_circular :
    let m := ((Model.new (.consecutive ⟨24300⟩ 3) .standard).after
      (.addCalculation (.ofFormula 1 "Loop" "R1"))).after .recomputeAll
    Reached Operation.SparesCalculations m ∧ m.pending.isEmpty = true ∧
      ∃ e ∈ m.entries, TransGen m.Reads e.id e.id ∧ ∃ cycle, e.result = .failed m.periods (.circular cycle) := by
  intro m
  have hreached : Reached Operation.SparesCalculations m := ((Reached.new _ _).after trivial).after trivial
  have hp : m.pending.isEmpty = true := rfl
  have hf := recomputeAll_sameFormulas
    ((Model.new (.consecutive ⟨24300⟩ 3) .standard).after (.addCalculation (.ofFormula 1 "Loop" "R1")))
  obtain ⟨e, he, -⟩ := hf.symm.exists_entry (x := 1) rfl
  have hcycle : TransGen m.Reads 1 1 := by
    have hnames : Formula.occurrences "R1".toList = [.calculation 1] := by cbv
    have hnamed : (1 : CalculationId) ∈ namedCalculations "R1".toList := Formula.mem_namedCalculations.mpr
      ⟨.calculation 1, Formula.mem_namedReferences.mpr (hnames ▸ List.mem_cons_self), rfl⟩
    rw [show m.Reads = _ from hf.reads]
    exact .single ⟨⟨_, rfl, hnamed⟩, rfl⟩
  rw [← id_of_found he] at hcycle
  have hmem : e ∈ m.entries := mem_of_found (m := m) he
  exact ⟨hreached, hp, e, hmem, hcycle, (settled_of_pending_empty hreached hp hmem).1 hcycle⟩

end MonthlyModel.Model
