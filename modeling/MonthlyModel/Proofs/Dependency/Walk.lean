import Mathlib.Logic.Relation
import MonthlyModel.Dependency.Walk

/-! Depth-first walks.

A walk leaves exactly what can be reached from its starts. -/

namespace MonthlyModel.Dependency

open Relation

/-- Paths to an identifier do not depend on the edges from it. -/
theorem reflTransGen_congr_off {R R' : CalculationId → CalculationId → Prop} {id x : CalculationId}
    (h : ∀ d p, d ≠ id → (R d p ↔ R' d p)) : ReflTransGen R x id ↔ ReflTransGen R' x id := by
  have hmono : ∀ {R R' : CalculationId → CalculationId → Prop}, (∀ d p, d ≠ id → (R d p ↔ R' d p)) →
      ReflTransGen R x id → ReflTransGen R' x id := by
    intro R R' h hp
    induction hp using ReflTransGen.head_induction_on with
    | refl => exact .refl
    | @head a b hab _ ih =>
      by_cases ha : a = id
      · exact ha ▸ .refl
      · exact ih.head ((h a b ha).mp hab)
  exact ⟨hmono h, hmono fun d p hd => (h d p hd).symm⟩

/-- If only some identifiers have edges from them, a path to one of these goes from one of them to the next. -/
theorem transGen_among {R R' : CalculationId → CalculationId → Prop} {s : CalculationId → Prop} {x y : CalculationId}
    (h : TransGen R x y) (hfrom : ∀ a b, R a b → s a) (hstep : ∀ a b, R a b → s b → R' a b) (hy : s y) :
    TransGen R' x y := by
  induction h using TransGen.head_induction_on with
  | single hab => exact .single (hstep _ _ hab hy)
  | head hab h ih =>
    obtain ⟨_, hnext, -⟩ := TransGen.head'_iff.mp h
    exact ih.head (hstep _ _ hab (hfrom _ _ hnext))

theorem mem_erase_iff {ids : Std.TreeSet CalculationId} {x id : CalculationId} :
    x ∈ ids.erase id ↔ x ≠ id ∧ x ∈ ids := by
  rw [Std.TreeSet.mem_erase, ne_eq, Std.LawfulEqCmp.compare_eq_iff_eq, eq_comm]

section
variable (next : CalculationId → List CalculationId)

/-- A step of a walk inside of a set. -/
def Step (within : Std.TreeSet CalculationId) (a b : CalculationId) : Prop :=
  b ∈ next a ∧ b ∈ within

/-- What any number of steps inside of a set lead to. -/
abbrev Reaches (within : Std.TreeSet CalculationId) : CalculationId → CalculationId → Prop :=
  ReflTransGen (Step next within)

variable {next} {within ahead : Std.TreeSet CalculationId} {a b id s x : CalculationId}

theorem Reaches.mono (hsub : ∀ c ∈ ahead, c ∈ within) (h : Reaches next ahead a b) : Reaches next within a b :=
  ReflTransGen.mono (fun _ _ hs => ⟨hs.1, hsub _ hs.2⟩) _ _ h

/-- A path either stays clear of an identifier or goes on, clear of it, from there. -/
theorem Reaches.avoid (id : CalculationId) (h : Reaches next ahead s x) :
    s ≠ id ∧ Reaches next (ahead.erase id) s x ∨ x = id ∨
      ∃ y ∈ next id, y ∈ ahead.erase id ∧ Reaches next (ahead.erase id) y x := by
  induction h with
  | refl =>
    by_cases hs : s = id
    · exact .inr (.inl hs)
    · exact .inl ⟨hs, .refl⟩
  | @tail b c _ hbc ih =>
    by_cases hc : c = id
    · exact .inr (.inl hc)
    · have hmem : c ∈ ahead.erase id := mem_erase_iff.mpr ⟨hc, hbc.2⟩
      rcases ih with ⟨hs, hp⟩ | rfl | ⟨y, hy, hya, hp⟩
      · exact .inl ⟨hs, hp.tail ⟨hbc.1, hmem⟩⟩
      · exact .inr (.inr ⟨c, hbc.1, hmem, .refl⟩)
      · exact .inr (.inr ⟨y, hy, hya, hp.tail ⟨hbc.1, hmem⟩⟩)

/-! ### What a walk leaves -/

/-- A walk leaves what it has to leave and what it can reach from what it has to enter. -/
theorem mem_leaving {visits : List Visit} : x ∈ leaving next ahead visits ↔
    .leave x ∈ visits ∨ ∃ s, .enter s ∈ visits ∧ s ∈ ahead ∧ Reaches next ahead s x := by
  fun_induction leaving next ahead visits with
  | case1 ahead => simp
  | case2 ahead id rest ih => simp [ih, or_assoc]
  | case3 ahead id rest hid ih =>
    have hsub : ∀ c ∈ ahead.erase id, c ∈ ahead := fun c hc => (mem_erase_iff.mp hc).2
    simp only [ih, List.mem_append, List.mem_map, List.mem_cons, reduceCtorEq, and_false, exists_false,
      Visit.leave.injEq, Visit.enter.injEq, exists_eq_right, false_or]
    constructor
    · rintro ((rfl | h) | ⟨s, hs | hs, hsa, hp⟩)
      · exact .inr ⟨_, .inl rfl, hid, .refl⟩
      · exact .inl h
      · exact .inr ⟨id, .inl rfl, hid, ReflTransGen.head ⟨hs, hsub s hsa⟩ (hp.mono hsub)⟩
      · exact .inr ⟨s, .inr hs, hsub s hsa, hp.mono hsub⟩
    · rintro (h | ⟨s, hs, hsa, hp⟩)
      · exact .inl (.inr h)
      -- A path that enters the id again is cut there: what it reaches is reached from a successor of the id.
      · rcases hp.avoid id with ⟨hne, hp⟩ | rfl | ⟨y, hy, hya, hp⟩
        · exact .inr ⟨s, .inr (hs.resolve_left hne), mem_erase_iff.mpr ⟨hne, hsa⟩, hp⟩
        · exact .inl (.inl rfl)
        · exact .inr ⟨y, .inl hy, hya, hp⟩
  | case4 ahead id rest hid ih =>
    simp only [ih, List.mem_cons, reduceCtorEq, false_or, Visit.enter.injEq]
    constructor
    · rintro (h | ⟨s, hs, hsa, hp⟩)
      · exact .inl h
      · exact .inr ⟨s, .inr hs, hsa, hp⟩
    · rintro (h | ⟨s, hs, hsa, hp⟩)
      · exact .inl h
      · exact .inr ⟨s, hs.resolve_left (fun h => hid (h ▸ hsa)), hsa, hp⟩

theorem mem_walk {starts : List CalculationId} :
    x ∈ walk next within starts ↔ ∃ s ∈ starts, s ∈ within ∧ Reaches next within s x := by
  simp [walk, mem_leaving]

theorem mem_reachable {starts : List CalculationId} :
    x ∈ reachable next within starts ↔ ∃ s ∈ starts, s ∈ within ∧ Reaches next within s x := by
  rw [reachable, Std.TreeSet.mem_ofList, List.contains_iff_mem, mem_walk]

end

end MonthlyModel.Dependency
