import MonthlyModel.Proofs.Formula.Readings
import MonthlyModel.Proofs.Model.Recompute

/-! What revisions stand for.

A revision identifies a result, or the binding of a reference: there is one past that tells for every
revision what it stood for, and the past only grows. A memo is sound if the past tells that the
revisions in it stood for what the stored result was computed from. -/

namespace MonthlyModel

open Formula (Evaluation Context evaluateText)

/-- What calculations and references had at their revisions. -/
structure Past where
  result : CalculationId → Nat → Evaluation Float
  series : Reference → Option Nat → Option (Series Float)

namespace Past

/-- The series that a reference was read as at a revision. A calculation without a revision does not
    exist, and is read as a bound series. -/
def reading (h : Past) (r : Reference) (revision : Option Nat) : Option (Series Float) :=
  match r.calculation? with
  | some id => (revision.map fun n => (h.result id n).values).or (h.series r none)
  | none => h.series r revision

/-- A past that tells the same of all revisions up to a time. -/
structure Extends (h h' : Past) (clock : Nat) : Prop where
  result : ∀ {id n}, n ≤ clock → h'.result id n = h.result id n
  series : ∀ {r n}, (∀ k, n = some k → k ≤ clock) → h'.series r n = h.series r n

theorem Extends.refl (h : Past) (clock : Nat) : h.Extends h clock :=
  ⟨fun _ => rfl, fun _ => rfl⟩

theorem Extends.trans {h h' h'' : Past} {clock clock' : Nat} (e : h.Extends h' clock)
    (e' : h'.Extends h'' clock') (hle : clock ≤ clock') : h.Extends h'' clock where
  result hn := (e'.result (Nat.le_trans hn hle)).trans (e.result hn)
  series hn := (e'.series fun k hk => Nat.le_trans (hn k hk) hle).trans (e.series hn)

theorem Extends.reading {h h' : Past} {clock : Nat} (e : h.Extends h' clock) {r : Reference} {n : Option Nat}
    (hn : ∀ k, n = some k → k ≤ clock) : h'.reading r n = h.reading r n := by
  unfold Past.reading
  cases r.calculation? with
  | none => exact e.series hn
  | some id =>
    rw [e.series (n := none) fun k hk => nomatch hk]
    cases n with
    | none => rfl
    | some k => exact congrArg (fun x => (some x.values).or (h.series r none)) (e.result (hn k rfl))

/-- A past that also tells of a result of a calculation. -/
def withResult (h : Past) (id : CalculationId) (n : Nat) (result : Evaluation Float) : Past :=
  { h with result := fun x k => if x = id ∧ k = n then result else h.result x k }

/-- A past that also tells of a binding of a reference. -/
def withSeries (h : Past) (r : Reference) (n : Nat) (series : Option (Series Float)) : Past :=
  { h with series := fun r' k => if r = r' ∧ k = some n then series else h.series r' k }

theorem withResult_here (h : Past) (id : CalculationId) (n : Nat) (result : Evaluation Float) :
    (h.withResult id n result).result id n = result :=
  if_pos ⟨rfl, rfl⟩

theorem withSeries_here (h : Past) (r : Reference) (n : Nat) (series : Option (Series Float)) :
    (h.withSeries r n series).series r (some n) = series :=
  if_pos ⟨rfl, rfl⟩

theorem withSeries_other {r r' : Reference} (hr : r ≠ r') (h : Past) (n : Nat) (series : Option (Series Float))
    (k : Option Nat) : (h.withSeries r n series).series r' k = h.series r' k :=
  if_neg fun hc => hr hc.1

/-- What has a revision that the clock is still ahead of changes nothing of the past. -/
theorem extends_withResult (h : Past) (id : CalculationId) (clock : Nat) (result : Evaluation Float) :
    h.Extends (h.withResult id (clock + 1) result) clock where
  result hn := by
    refine if_neg ?_
    rintro ⟨-, rfl⟩
    exact Nat.not_succ_le_self clock hn
  series _ := rfl

theorem extends_withSeries (h : Past) (r : Reference) (clock : Nat) (series : Option (Series Float)) :
    h.Extends (h.withSeries r (clock + 1) series) clock where
  result _ := rfl
  series hn := by
    refine if_neg ?_
    rintro ⟨-, rfl⟩
    exact Nat.not_succ_le_self clock (hn _ rfl)

end Past

/-- What is stored is remembered by its revision, be it the new result or an equal one that is kept. -/
theorem Entry.Stores.remembered {clock clock' : Nat} {memo : Option Memo} {result : Evaluation Float} {e e' : Entry}
    (hs : e.Stores clock memo result clock' e') {h : Past} {id : CalculationId} (hr : h.result id e.revision = e.result)
    (hle : e.revision ≤ clock) :
    (h.withResult id (clock + 1) result).result id e'.revision = e'.result ∧ e'.revision ≤ clock' := by
  cases hs with
  | kept => exact ⟨((h.extends_withResult id clock result).result hle).trans hr, hle⟩
  | changed => exact ⟨h.withResult_here .., Nat.le_refl _⟩

namespace Model

variable {m m' : Model} {h h' : Past} {id x : CalculationId}

/-- A past that tells of a model's revisions what they stand for now. -/
structure Remembers (m : Model) (h : Past) : Prop where
  results : ∀ {id e}, m.entry? id = some e → h.result id e.revision = e.result
  series : ∀ {r : Reference}, h.series r m.inputRevisions[r]? = m.series.get? r
  initial : ∀ {id}, h.result id 0 = ⟨List.replicate m.periods 0, none⟩
  revision_le : ∀ {id e}, m.entry? id = some e → e.revision ≤ m.clock
  inputRevision_le : ∀ {r : Reference} {n : Nat}, m.inputRevisions[r]? = some n → n ≤ m.clock

namespace Remembers

theorem start (hentries : m.entries = []) (hrevisions : m.inputRevisions = ∅) :
    m.Remembers ⟨fun _ _ => ⟨List.replicate m.periods 0, none⟩, fun r _ => m.series.get? r⟩ where
  results h := by simp [entry?_def, hentries] at h
  series := rfl
  initial := rfl
  revision_le h := by simp [entry?_def, hentries] at h
  inputRevision_le h := by simp [hrevisions] at h

theorem sameResults (hr : m.Remembers h) (hs : SameResults m m') : m'.Remembers h where
  results he := by
    obtain ⟨e, he, hsame⟩ := hs.results he
    rw [hsame.revision, hsame.result, hr.results he]
  series := by
    intro r
    rw [hs.inputRevisions, hs.series, hr.series]
  initial := by
    intro id
    rw [hr.initial, periods, periods, hs.timeline]
  revision_le he := by
    obtain ⟨e, he, hsame⟩ := hs.results he
    rw [hsame.revision, hs.clock]
    exact hr.revision_le he
  inputRevision_le hn := by
    rw [hs.inputRevisions] at hn
    rw [hs.clock]
    exact hr.inputRevision_le hn

theorem editedAt (hr : m.Remembers h) (hs : EditedAt id m m') : m'.Remembers h := by
  have hp : m'.periods = m.periods := congrArg Timeline.length hs.timeline
  -- A calculation that is new starts with the result that stands for no revision at all.
  have hentry : ∀ {x e}, m'.entry? x = some e → h.result x e.revision = e.result ∧ e.revision ≤ m.clock := by
    intro x e he
    rcases hs.entry_cases he with hsame | ⟨e', he', hsame⟩
    · rw [hsame.revision, hsame.result]
      exact ⟨hr.initial, Nat.zero_le _⟩
    · rw [hsame.revision, hsame.result]
      exact ⟨hr.results he', hr.revision_le he'⟩
  refine ⟨fun he => (hentry he).1, ?_, ?_, fun he => hs.clock ▸ (hentry he).2, ?_⟩
  · intro r
    rw [hs.inputRevisions, hs.series, hr.series]
  · intro id
    rw [hr.initial, hp]
  · intro r n hn
    rw [hs.inputRevisions] at hn
    exact hs.clock ▸ hr.inputRevision_le hn

/-- A new binding is remembered by its revision. -/
theorem reboundAt {r : Reference} (hr : m.Remembers h) (hs : ReboundAt r m m') :
    ∃ h', m'.Remembers h' ∧ h.Extends h' m.clock := by
  have hclock : m.clock ≤ m'.clock := hs.clock ▸ Nat.le_succ _
  have hp : m'.periods = m.periods := congrArg Timeline.length hs.timeline
  have hentry : ∀ x, m'.entry? x = m.entry? x := fun _ => entry?_congr hs.entries
  have hrevision : ∀ r' : Reference, m'.inputRevisions[r']? =
      if r = r' then some m'.clock else m.inputRevisions[r']? := by
    intro r'
    rw [hs.revisions, Std.TreeMap.getElem?_insert]
    simp only [Std.LawfulEqCmp.compare_eq_iff_eq]
  refine ⟨h.withSeries r (m.clock + 1) (m'.series.get? r), ⟨?_, ?_, ?_, ?_, ?_⟩, h.extends_withSeries ..⟩
  · intro x e he
    exact hr.results (hentry x ▸ he)
  · intro r'
    rw [hrevision, hs.clock]
    split
    · next hr' =>
      subst hr'
      exact h.withSeries_here ..
    · next hr' => rw [Past.withSeries_other hr', hs.others (Ne.symm hr'), hr.series]
  · intro id
    exact hp ▸ hr.initial
  · intro x e he
    exact Nat.le_trans (hr.revision_le (hentry x ▸ he)) hclock
  · intro r' n hn
    rw [hrevision] at hn
    split at hn
    · exact Nat.le_of_eq (Option.some.inj hn).symm
    · exact Nat.le_trans (hr.inputRevision_le hn) hclock

/-- A new result is remembered by its revision. -/
theorem storedAt {memo : Option Memo} {result : Evaluation Float} (hr : m.Remembers h)
    (hs : StoredAt id memo result m m') : ∃ h', m'.Remembers h' ∧ h.Extends h' m.clock := by
  have hp : m'.periods = m.periods := congrArg Timeline.length hs.timeline
  have hextends := h.extends_withResult id m.clock result
  have hentry : ∀ {x e'}, m'.entry? x = some e' →
      (h.withResult id (m.clock + 1) result).result x e'.revision = e'.result ∧ e'.revision ≤ m'.clock := by
    intro x e' he'
    rcases hs.entry_cases he' with ⟨rfl, e, he, hstores⟩ | ⟨-, he⟩
    · exact hstores.remembered (hr.results he) (hr.revision_le he)
    · have hle := hr.revision_le he
      exact ⟨(hextends.result hle).trans (hr.results he), Nat.le_trans hle hs.clock_le⟩
  refine ⟨_, ⟨fun he => (hentry he).1, ?_, ?_, fun he => (hentry he).2, ?_⟩, hextends⟩
  · intro r
    rw [hs.inputRevisions, hs.series]
    exact hr.series
  · intro id
    exact (hextends.result (Nat.zero_le _)).trans (hp ▸ hr.initial)
  · intro r n hn
    rw [hs.inputRevisions] at hn
    exact Nat.le_trans (hr.inputRevision_le hn) hs.clock_le

theorem le_of_revision? (hr : m.Remembers h) {r : Reference} {k : Nat} (hk : m.revision? r = some k) :
    k ≤ m.clock := by
  unfold revision? at hk
  split at hk
  · obtain ⟨e, he, rfl⟩ := Option.map_eq_some_iff.mp hk
    exact hr.revision_le he
  · exact hr.inputRevision_le hk

end Remembers

/-! ### Memos -/

/-- Whether a revision tells what a reference is read as. A calculation that does not exist has no
    revision, and what is bound under its name instead has one that memos do not look at. -/
def Tells (m : Model) (r : Reference) (revision : Option Nat) : Prop :=
  r.calculation?.isSome = true → revision = none → m.inputRevisions[r]? = none

/-- A calculation names no missing calculation under whose name a series was ever bound or unbound. -/
def Told (m : Model) (id : CalculationId) : Prop :=
  ∀ e, m.entry? id = some e → ∀ r ∈ e.references, ∀ k, r.calculation? = some k →
    m.contains k = true ∨ m.inputRevisions[r]? = none

theorem Told.tells {e : Entry} {r : Reference} (ht : m.Told id) (he : m.entry? id = some e)
    (hr : r ∈ e.references) : m.Tells r (m.revision? r) := by
  intro hsome hnone
  obtain ⟨k, hk⟩ := Option.isSome_iff_exists.mp hsome
  refine (ht e he r hr k hk).resolve_left fun hc => ?_
  obtain ⟨e', he'⟩ := contains_iff.mp hc
  simp [revision?, hk, he'] at hnone

/-- What memos say of a model whose past is known: a stored result stands for the value that the
    formula of its memo had, where the references in it were read at the revisions in it. -/
structure Memoized (m : Model) (h : Past) : Prop where
  le_clock : ∀ {id e memo r k}, m.entry? id = some e → e.memo = some memo → (r, some k) ∈ memo.revisions →
    k ≤ m.clock
  sound : ∀ {id e memo}, m.entry? id = some e → e.memo = some memo → ∀ c : Context Float,
    c.timeline = m.timeline →
    (∀ r n, (r, n) ∈ memo.revisions → m.Tells r n ∧ c.bound? r = h.reading r n) →
    Agrees e.result (evaluateText c memo.formula.toList)

/-- What a reference stands for is remembered by its revision, if that tells it. -/
theorem Remembers.reading (hr : m.Remembers h) {r : Reference} (ht : m.Tells r (m.revision? r)) :
    h.reading r (m.revision? r) = m.context.bound? r := by
  unfold Tells at ht
  unfold Past.reading Context.bound?
  unfold revision? at ht ⊢
  cases hc : r.calculation? with
  | none => exact hr.series
  | some id =>
    rw [hc] at ht
    cases he : m.entry? id with
    | some e => simp [context, he, hr.results he]
    | none =>
      have hnone := ht rfl (by simp [he])
      have hseries : h.series r none = m.series.get? r := by rw [← hr.series, hnone]
      simp [context, he, hseries]

/-- A memo that is up to date vouches for the stored result. -/
theorem Memoized.agrees {e : Entry} (hm : m.Memoized h) (hr : m.Remembers h) (ht : m.Told id)
    (he : m.entry? id = some e) (hmemo : e.memo = some (m.memo e)) :
    Agrees e.result (evaluateText m.context e.calculation.formula.toList) := by
  refine hm.sound he hmemo m.context rfl fun r n hrn => ?_
  obtain ⟨r', hr', h'⟩ := List.mem_map.mp hrn
  cases h'
  have htells := ht.tells he hr'
  exact ⟨htells, (hr.reading htells).symm⟩

namespace Memoized

/-- Memos outlive whatever keeps entries or makes new ones without a memo. -/
theorem transfer (hm : m.Memoized h) (he : h.Extends h' m.clock) (ht : m'.timeline = m.timeline)
    (hk : m.clock ≤ m'.clock)
    (hi : ∀ r : Reference, m'.inputRevisions[r]? = none → m.inputRevisions[r]? = none)
    (hentry : ∀ {x e' memo}, m'.entry? x = some e' → e'.memo = some memo →
      ∃ e, m.entry? x = some e ∧ e.memo = some memo ∧ e'.result = e.result) : m'.Memoized h' where
  le_clock hx hmemo hrk := by
    obtain ⟨e, hx, hmemo, -⟩ := hentry hx hmemo
    exact Nat.le_trans (hm.le_clock hx hmemo hrk) hk
  sound hx hmemo c hc hread := by
    obtain ⟨e, hx, hmemo, hres⟩ := hentry hx hmemo
    rw [hres]
    refine hm.sound hx hmemo c (hc.trans ht) fun r n hrn => ?_
    obtain ⟨htells, hbound⟩ := hread r n hrn
    refine ⟨fun hsome hnone => hi r (htells hsome hnone), hbound.trans ?_⟩
    exact he.reading fun k hk => hm.le_clock hx hmemo (hk ▸ hrn)

theorem sameResults (hm : m.Memoized h) (hs : SameResults m m') : m'.Memoized h := by
  refine hm.transfer (.refl h _) hs.timeline (Nat.le_of_eq hs.clock.symm)
    (fun r hr => hs.inputRevisions ▸ hr) fun he hmemo => ?_
  obtain ⟨e, he, hsame⟩ := hs.results he
  exact ⟨e, he, hsame.memo ▸ hmemo, hsame.result⟩

theorem editedAt (hm : m.Memoized h) (hs : EditedAt id m m') : m'.Memoized h := by
  refine hm.transfer (.refl h _) hs.timeline (Nat.le_of_eq hs.clock.symm)
    (fun r hr => hs.inputRevisions ▸ hr) fun {x e' memo} he hmemo => ?_
  rcases hs.entry_cases he with hsame | ⟨e, he, hsame⟩
  · exact nomatch hsame.memo.symm.trans hmemo
  · exact ⟨e, he, hsame.memo ▸ hmemo, hsame.result⟩

theorem reboundAt {r : Reference} (hm : m.Memoized h) (hs : ReboundAt r m m') (he : h.Extends h' m.clock) :
    m'.Memoized h' := by
  refine hm.transfer he hs.timeline (hs.clock ▸ Nat.le_succ _) (fun r' hr' => ?_) fun {x e' memo} hx hmemo => ?_
  · rw [hs.revisions, Std.TreeMap.getElem?_insert] at hr'
    split at hr'
    · cases hr'
    · exact hr'
  rw [entry?_congr hs.entries] at hx
  exact ⟨e', hx, hmemo, rfl⟩

theorem storedAt_none {result : Evaluation Float} (hm : m.Memoized h) (hs : StoredAt id none result m m')
    (he : h.Extends h' m.clock) : m'.Memoized h' := by
  refine hm.transfer he hs.timeline hs.clock_le (fun r hr => hs.inputRevisions ▸ hr) fun {x e' memo} he' hmemo => ?_
  rcases hs.entry_cases he' with ⟨-, e, -, hstores⟩ | ⟨-, he⟩
  · exact nomatch hstores.memo_eq.symm.trans hmemo
  · exact ⟨e', he, hmemo, rfl⟩

/-- What is evaluated has a sound memo. -/
theorem storedAt {e : Entry} (hm : m.Memoized h) (hr : m.Remembers h) (hc : m.Coherent)
    (hid : m.entry? id = some e)
    (hs : StoredAt id (some (m.memo e)) (evaluateText m.context e.calculation.formula.toList) m m')
    (he : h.Extends h' m.clock) : m'.Memoized h' where
  le_clock {x e' memo r k} he' hmemo hrk := by
    refine Nat.le_trans ?_ hs.clock_le
    rcases hs.entry_cases he' with ⟨-, e₀, -, hstores⟩ | ⟨-, hx⟩
    · cases hstores.memo_eq.symm.trans hmemo
      obtain ⟨r', -, h'⟩ := List.mem_map.mp hrk
      obtain ⟨rfl, hk⟩ := Prod.mk.inj h'
      exact hr.le_of_revision? hk
    · exact hm.le_clock hx hmemo hrk
  sound {x e' memo} he' hmemo c ht hread := by
    rcases hs.entry_cases he' with ⟨rfl, e₀, he₀, hstores⟩ | ⟨-, hx⟩
    · cases hid.symm.trans he₀
      cases hstores.memo_eq.symm.trans hmemo
      -- The context reads what the model read when the memo was made.
      have heval : evaluateText c e.calculation.formula.toList =
          evaluateText m.context e.calculation.formula.toList := by
        refine Formula.evaluateText_congr (ht.trans hs.timeline) fun r hrn => ?_
        rw [← hc.references hid] at hrn
        obtain ⟨htells, hbound⟩ := hread r (m.revision? r) (List.mem_map.mpr ⟨r, hrn, rfl⟩)
        rw [hbound, he.reading fun k hk => hr.le_of_revision? hk]
        exact hr.reading fun hsome hnone => hs.inputRevisions ▸ htells hsome hnone
      rw [memo, heval]
      exact hstores.agrees
    · refine hm.sound hx hmemo c (ht.trans hs.timeline) fun r n hrn => ?_
      obtain ⟨htells, hbound⟩ := hread r n hrn
      refine ⟨fun hsome hnone => hs.inputRevisions ▸ htells hsome hnone, hbound.trans ?_⟩
      exact he.reading fun k hk => hm.le_clock hx hmemo (hk ▸ hrn)

end Memoized

end Model

end MonthlyModel
