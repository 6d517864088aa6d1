import Mathlib.Data.List.Nodup
import Mathlib.Logic.Relation
import Mathlib.Tactic.Tauto
import MonthlyModel.Dependency.Search
import MonthlyModel.Proofs.Dependency.Walk

/-! Searching for components.

A search that connects a node leaves on the stack, above what was there before, only nodes that lead
back to what was there before; the index that it returns bounds from below all that these nodes lead to
there. Where nothing that was there before is led to, what has come onto the stack is a component, and
everything that it reads is in a component found earlier. -/

namespace MonthlyModel.Dependency

open Relation

namespace Graph

variable {g : Graph} {a b : CalculationId}

/-- A node that reads a node. -/
def Edge (g : Graph) (d p : CalculationId) : Prop :=
  d ∈ g.nodes ∧ p ∈ g.nodes ∧ p ∈ g.precedentsOf d

/-- A node needs itself, the nodes that it reads, and what they need. -/
abbrev Needs (g : Graph) : CalculationId → CalculationId → Prop :=
  ReflTransGen g.Edge

theorem Needs.mem (h : g.Needs a b) (ha : a ∈ g.nodes) : b ∈ g.nodes := by
  cases h with
  | refl => exact ha
  | tail _ hs => exact hs.2.1

/-- A strongly connected component of the nodes, listed in ascending order. -/
structure IsComponent (g : Graph) (ids : List CalculationId) : Prop where
  ascending : ids.Pairwise (· < ·)
  members : ∃ v ∈ g.nodes, ∀ x, x ∈ ids ↔ g.Needs v x ∧ g.Needs x v

namespace IsComponent

variable {ids ids' : List CalculationId}

theorem mem_nodes (h : g.IsComponent ids) (ha : a ∈ ids) : a ∈ g.nodes := by
  obtain ⟨v, hv, hmem⟩ := h.members
  exact ((hmem a).mp ha).1.mem hv

theorem mem_iff (h : g.IsComponent ids) (ha : a ∈ ids) : b ∈ ids ↔ g.Needs a b ∧ g.Needs b a := by
  obtain ⟨v, -, hmem⟩ := h.members
  obtain ⟨hva, hav⟩ := (hmem a).mp ha
  rw [hmem]
  exact ⟨fun ⟨hvb, hbv⟩ => ⟨hav.trans hvb, hbv.trans hva⟩, fun ⟨hab, hba⟩ => ⟨hva.trans hab, hba.trans hav⟩⟩

theorem nodup (h : g.IsComponent ids) : ids.Nodup :=
  h.ascending.imp UInt32.ne_of_lt

theorem eq_of_mem (h : g.IsComponent ids) (h' : g.IsComponent ids') (ha : a ∈ ids) (ha' : a ∈ ids') :
    ids = ids' := by
  refine List.Perm.eq_of_pairwise ?_ h.ascending h'.ascending ?_
  · intro x y _ _ hxy hyx
    exact absurd hyx (UInt32.lt_asymm hxy)
  · refine (List.perm_ext_iff_of_nodup h.nodup h'.nodup).mpr fun x => ?_
    rw [h.mem_iff ha, h'.mem_iff ha']

/-- A list in ascending order that has a member has another one exactly if it is longer than one. -/
theorem one_lt_length_iff (h : g.IsComponent ids) (ha : a ∈ ids) : 1 < ids.length ↔ ∃ w ∈ ids, w ≠ a := by
  have hascending := h.ascending
  match ids, ha with
  | [v], ha =>
    obtain rfl := List.mem_singleton.mp ha
    simp
  | v :: w :: ids, _ =>
    have hlt : v < w := (List.pairwise_cons.mp hascending).1 w List.mem_cons_self
    refine ⟨fun _ => ?_, fun _ => by simp⟩
    by_cases hv : v = a
    · exact ⟨w, by simp, fun hw => UInt32.ne_of_lt hlt (hv.trans hw.symm)⟩
    · exact ⟨v, by simp, hv⟩

/-- A component contains a cycle if it has more than one member or its member reads itself. -/
theorem cyclic_iff (h : g.IsComponent ids) (ha : a ∈ ids) :
    (∃ v ∈ ids, TransGen g.Edge v v) ↔ 1 < ids.length ∨ a ∈ g.precedentsOf a := by
  have hmem : ∀ x, x ∈ ids ↔ g.Needs a x ∧ g.Needs x a := fun _ => h.mem_iff ha
  rw [h.one_lt_length_iff ha]
  constructor
  · rintro ⟨v, hv, hcycle⟩
    by_cases hne : v = a
    · subst hne
      obtain ⟨w, hedge, hback⟩ := TransGen.head'_iff.mp hcycle
      by_cases hw : w = v
      · exact .inr (hw ▸ hedge.2.2)
      · exact .inl ⟨w, (hmem w).mpr ⟨.single hedge, hback⟩, hw⟩
    · exact .inl ⟨v, hv, hne⟩
  · rintro (⟨w, hw, hne⟩ | hloop)
    · obtain ⟨hdown, hup⟩ := (hmem w).mp hw
      exact ⟨a, ha, ((reflTransGen_iff_eq_or_transGen.mp hdown).resolve_left hne).trans_left hup⟩
    · exact ⟨a, ha, .single ⟨h.mem_nodes ha, h.mem_nodes ha, hloop⟩⟩

end IsComponent

end Graph

namespace Search

variable {g : Graph} {s s' s'' : Search} {id src p x : CalculationId} {low low' : Nat}
  {later : List CalculationId}

/-! ### What holds between any two steps -/

/-- A node whose component is known. -/
def Closed (s : Search) (x : CalculationId) : Prop :=
  ∃ k ∈ s.components, x ∈ k.members

theorem mem_componentOf : x ∈ (componentOf g id later).members ↔ x ∈ later ∨ x = id := by
  simp [componentOf]

theorem componentOf_ascending (g : Graph) (id : CalculationId) (later : List CalculationId) :
    (componentOf g id later).members.Pairwise (· < ·) :=
  Std.TreeSet.ordered_toList.imp Std.compare_eq_lt.mp

theorem componentOf_isCycle (h : g.IsComponent (componentOf g id later).members) :
    (componentOf g id later).isCycle = true ↔ ∃ v ∈ (componentOf g id later).members, TransGen g.Edge v v := by
  rw [h.cyclic_iff (mem_componentOf.mpr (.inr rfl))]
  simp [componentOf, Std.TreeSet.contains_iff_mem]

/-- Every node is ahead, or waits, or is closed; what is known as a component is one, and holds with
    the components before it all that its members read. -/
structure Sound (g : Graph) (s : Search) : Prop where
  nodes : ∀ x, x ∈ g.nodes ↔ x ∈ s.ahead ∨ x ∈ s.stack ∨ s.Closed x
  unmet : ∀ x ∈ s.ahead, x ∉ s.stack ∧ ¬ s.Closed x
  waiting : ∀ x ∈ s.stack, ¬ s.Closed x
  index_lt : ∀ x ∈ s.stack, s.index x < s.count
  components : ∀ k ∈ s.components, g.IsComponent k.members
  cycles : ∀ k ∈ s.components, k.isCycle = true ↔ ∃ v ∈ k.members, TransGen g.Edge v v
  pairwise : s.components.Pairwise fun k k' => ∀ a ∈ k.members, ∀ b ∈ k'.members, ¬ g.Needs a b
  closed : ∀ x y, s.Closed x → g.Edge x y → s.Closed y

theorem index_meet : (s.meet id).index x = if x = id then s.count else s.index x := by
  rw [index, meet, Std.TreeMap.getD_insert]
  simp only [Std.LawfulEqCmp.compare_eq_iff_eq, eq_comm (a := id), index]

namespace Sound

theorem start (g : Graph) : Sound g (start g) where
  nodes x := by simp [Search.start, Closed]
  unmet x _ := by simp [Search.start, Closed]
  waiting x hx := absurd hx List.not_mem_nil
  index_lt x hx := absurd hx List.not_mem_nil
  components k hk := absurd hk List.not_mem_nil
  cycles k hk := absurd hk List.not_mem_nil
  pairwise := .nil
  closed x y hx := by simp [Search.start, Closed] at hx

theorem closed_of_needs (hs : Sound g s) {y : CalculationId} (hx : s.Closed x) (h : g.Needs x y) :
    s.Closed y := by
  induction h with
  | refl => exact hx
  | tail _ hedge ih => exact hs.closed _ _ ih hedge

theorem meet (hs : Sound g s) (hid : id ∈ s.ahead) : Sound g (s.meet id) where
  nodes x := by
    -- The id moves from what lies ahead to the stack; no node is lost.
    have hx : x ∈ s.ahead ↔ x = id ∨ x ≠ id ∧ x ∈ s.ahead := by
      by_cases h : x = id
      · simp [h, hid]
      · simp [h]
    rw [hs.nodes, hx, ← mem_erase_iff]
    simp only [Search.meet, List.mem_cons, Closed]
    tauto
  unmet x hx := by
    obtain ⟨hne, hx⟩ := mem_erase_iff.mp hx
    obtain ⟨hstack, hclosed⟩ := hs.unmet x hx
    exact ⟨fun h => (List.mem_cons.mp h).elim hne hstack, hclosed⟩
  waiting x hx := by
    rcases List.mem_cons.mp hx with rfl | hx
    · exact (hs.unmet x hid).2
    · exact hs.waiting x hx
  index_lt x hx := by
    rw [index_meet]
    split
    · exact Nat.lt_succ_self _
    · next hne => exact Nat.lt_succ_of_lt (hs.index_lt x ((List.mem_cons.mp hx).resolve_left hne))
  components := hs.components
  cycles := hs.cycles
  pairwise := hs.pairwise
  closed := hs.closed

end Sound

/-- What is on the stack down to a node needs that node and is needed by it, and reads nothing that is
    ahead or further down. -/
structure Closes (g : Graph) (s : Search) (id : CalculationId) (later old : List CalculationId) : Prop where
  sound : Sound g s
  stack : s.stack = later ++ id :: old
  ne : ∀ w ∈ later, w ≠ id
  fresh : ∀ w, w ∈ later ∨ w = id → w ∉ old
  needs : ∀ w ∈ later, g.Needs id w ∧ g.Needs w id
  read : ∀ w, w ∈ later ∨ w = id → ∀ x, g.Edge w x → x ∉ s.ahead ∧ x ∉ old

namespace Closes

variable {old : List CalculationId} {y : CalculationId} (h : Closes g s id later old)
include h

theorem stack_close : (s.close g id).stack = old := by
  rw [Search.close, h.stack, List.dropWhile_append_of_pos fun w hw => bne_iff_ne.mpr (h.ne w hw)]
  simp

theorem components_close : (s.close g id).components = s.components ++ [componentOf g id later] := by
  rw [Search.close, h.stack, List.takeWhile_append_of_pos fun w hw => bne_iff_ne.mpr (h.ne w hw)]
  simp

theorem closed_iff : (s.close g id).Closed x ↔ s.Closed x ∨ x ∈ later ∨ x = id := by
  simp only [Closed, h.components_close, List.mem_append, List.mem_singleton, or_and_right, exists_or,
    exists_eq_left, mem_componentOf]

theorem mem_stack : x ∈ s.stack ↔ (x ∈ later ∨ x = id) ∨ x ∈ old := by
  rw [h.stack, List.mem_append, List.mem_cons, or_assoc]

theorem not_closed (hx : x ∈ later ∨ x = id) : ¬ s.Closed x :=
  h.sound.waiting x (h.mem_stack.mpr (.inl hx))

theorem closed_step (hx : (s.close g id).Closed x) (hedge : g.Edge x y) : (s.close g id).Closed y := by
  rw [h.closed_iff] at hx ⊢
  rcases hx with hx | hx
  · exact .inl (h.sound.closed x y hx hedge)
  · obtain ⟨hahead, hold⟩ := h.read x hx y hedge
    rcases (h.sound.nodes y).mp hedge.2.1 with hy | hy | hy
    · exact absurd hy hahead
    · exact .inr ((h.mem_stack.mp hy).resolve_right hold)
    · exact .inl hy

theorem closed_of_needs (hx : g.Needs id x) : (s.close g id).Closed x := by
  induction hx with
  | refl => exact h.closed_iff.mpr (.inr (.inr rfl))
  | tail _ hedge ih => exact h.closed_step ih hedge

theorem isComponent : g.IsComponent (componentOf g id later).members := by
  refine ⟨componentOf_ascending g id later, id, ?_, fun x => ?_⟩
  · exact (h.sound.nodes id).mpr (.inr (.inl (h.mem_stack.mpr (.inl (.inr rfl)))))
  · rw [mem_componentOf]
    constructor
    · rintro (hx | rfl)
      · exact h.needs x hx
      · exact ⟨.refl, .refl⟩
    · rintro ⟨hdown, hup⟩
      -- What is closed already does not lead to what still waits.
      refine (h.closed_iff.mp (h.closed_of_needs hdown)).resolve_left fun hx => ?_
      exact h.not_closed (.inr rfl) (h.sound.closed_of_needs hx hup)

theorem sound_close : Sound g (s.close g id) where
  nodes x := by
    rw [h.sound.nodes, h.mem_stack, h.closed_iff, h.stack_close]
    simp only [Search.close]
    tauto
  unmet x hx := by
    obtain ⟨hstack, hclosed⟩ := h.sound.unmet x hx
    rw [h.mem_stack] at hstack
    rw [h.closed_iff, h.stack_close]
    tauto
  waiting x hx := by
    rw [h.stack_close] at hx
    rw [h.closed_iff]
    -- What still waits is closed neither before nor by this component.
    rintro (hclosed | hnew)
    · exact h.sound.waiting x (h.mem_stack.mpr (.inr hx)) hclosed
    · exact h.fresh x hnew hx
  index_lt x hx := by
    rw [h.stack_close] at hx
    exact h.sound.index_lt x (h.mem_stack.mpr (.inr hx))
  components := by
    rw [h.components_close]
    exact List.forall_mem_append.mpr ⟨h.sound.components, List.forall_mem_singleton.mpr h.isComponent⟩
  cycles := by
    rw [h.components_close]
    refine List.forall_mem_append.mpr ⟨h.sound.cycles, List.forall_mem_singleton.mpr ?_⟩
    exact componentOf_isCycle h.isComponent
  pairwise := by
    rw [h.components_close]
    refine List.pairwise_append.mpr ⟨h.sound.pairwise, List.pairwise_singleton _ _, ?_⟩
    -- What was closed before needs nothing of the new component, or that would be closed, too.
    intro k hk k' hk' a ha b hb hab
    rw [List.mem_singleton.mp hk', mem_componentOf] at hb
    exact h.not_closed hb (h.sound.closed_of_needs ⟨k, hk, ha⟩ hab)
  closed _ _ := h.closed_step

end Closes

theorem Sound.index_meet_waiting (hs : Sound g s) (hid : id ∈ s.ahead) (hx : x ∈ s.stack) :
    (s.meet id).index x = s.index x := by
  rw [index_meet, if_neg]
  rintro rfl
  exact (hs.unmet x hid).1 hx

/-! ### What connecting leaves on the stack -/

/-- What is known of a node that a part of a search has met and left waiting, where that part started
    at `src` and returned the index `low`. -/
structure Waits (g : Graph) (s : Search) (src : CalculationId) (low : Nat) (s' : Search)
    (w : CalculationId) : Prop where
  met : w ∈ s.ahead
  later : s.count ≤ s'.index w
  below : g.Needs src w
  leads : ∃ u ∈ s.stack, g.Needs w u ∧ low ≤ s.index u
  followed : ∀ x, g.Edge w x → x ∉ s'.ahead ∧ (x ∈ s.stack → low ≤ s.index x)

/-- A part of a search that started at `src` and returned the index `low`. -/
structure Grown (g : Graph) (s : Search) (src : CalculationId) (low : Nat) (s' : Search) : Prop where
  sound : Sound g s'
  ahead : ∀ x ∈ s'.ahead, x ∈ s.ahead
  index : ∀ x ∉ s.ahead, s'.index x = s.index x
  count : s.count ≤ s'.count
  stack : ∃ new, s'.stack = new ++ s.stack ∧ ∀ w ∈ new, Waits g s src low s' w

namespace Grown

theorem refl (hs : Sound g s) (src : CalculationId) (low : Nat) : Grown g s src low s where
  sound := hs
  ahead _ hx := hx
  index _ _ := rfl
  count := Nat.le_refl _
  stack := ⟨[], rfl, fun _ hw => absurd hw List.not_mem_nil⟩

theorem index_waiting (h : Grown g s src low s') (hs : Sound g s) (hx : x ∈ s.stack) :
    s'.index x = s.index x :=
  h.index x fun ha => (hs.unmet x ha).1 hx

theorem mem_stack (h : Grown g s src low s') (hx : x ∈ s.stack) : x ∈ s'.stack := by
  obtain ⟨new, hstack, -⟩ := h.stack
  rw [hstack]
  exact List.mem_append_right _ hx

/-- A part of a search that starts by meeting a node gives no other index to what was met before. -/
theorem index_of_meet (h : Grown g (s.meet id) src low s') (hid : id ∈ s.ahead) (hx : x ∉ s.ahead) :
    s'.index x = s.index x := by
  rw [h.index x fun hm => hx (mem_erase_iff.mp hm).2, index_meet, if_neg]
  rintro rfl
  exact hx hid

theorem of_needs (h : Grown g s src low s') (hp : g.Needs p src) : Grown g s p low s' := by
  obtain ⟨new, hstack, hnew⟩ := h.stack
  refine ⟨h.sound, h.ahead, h.index, h.count, new, hstack, fun w hw => ?_⟩
  exact ⟨(hnew w hw).met, (hnew w hw).later, hp.trans (hnew w hw).below, (hnew w hw).leads, (hnew w hw).followed⟩

/-- Parts of a search that start at one node make up one part; the lesser index counts. -/
theorem trans (hs : Sound g s) (h : Grown g s src low s') (h' : Grown g s' src low' s'') (hlow : low' ≤ low) :
    Grown g s src low' s'' := by
  obtain ⟨new, hstack, hnew⟩ := h.stack
  obtain ⟨new', hstack', hnew'⟩ := h'.stack
  refine ⟨h'.sound, fun x hx => h.ahead x (h'.ahead x hx), fun x hx => ?_, Nat.le_trans h.count h'.count,
    new' ++ new, ?_, fun w hw => ?_⟩
  · rw [h'.index x fun hx' => hx (h.ahead x hx'), h.index x hx]
  · rw [hstack', hstack, List.append_assoc]
  · rcases List.mem_append.mp hw with hw | hw
    · obtain ⟨hmet, hlater, hbelow, ⟨u, hu, hwu, hle⟩, hfollowed⟩ := hnew' w hw
      refine ⟨h.ahead w hmet, Nat.le_trans h.count hlater, hbelow, ?_, fun x hedge => ?_⟩
      · rw [hstack] at hu
        rcases List.mem_append.mp hu with hu | hu
        · -- What waits since the first part leads further down.
          obtain ⟨u', hu', huu', hle'⟩ := (hnew u hu).leads
          exact ⟨u', hu', hwu.trans huu', Nat.le_trans hlow hle'⟩
        · exact ⟨u, hu, hwu, h.index_waiting hs hu ▸ hle⟩
      · obtain ⟨hx, hstep⟩ := hfollowed x hedge
        refine ⟨hx, fun hin => ?_⟩
        rw [← h.index_waiting hs hin]
        exact hstep (h.mem_stack hin)
    · obtain ⟨hmet, hlater, hbelow, ⟨u, hu, hwu, hle⟩, hfollowed⟩ := hnew w hw
      have hwaits : w ∈ s'.stack := hstack ▸ List.mem_append_left _ hw
      refine ⟨hmet, h'.index_waiting h.sound hwaits ▸ hlater, hbelow, ⟨u, hu, hwu, Nat.le_trans hlow hle⟩, ?_⟩
      intro x hedge
      obtain ⟨hx, hstep⟩ := hfollowed x hedge
      exact ⟨fun hx' => hx (h'.ahead x hx'), fun hin => Nat.le_trans hlow (hstep hin)⟩

end Grown

/-- The index is that of a waiting node that `src` needs. -/
def LeadsTo (g : Graph) (s : Search) (src : CalculationId) (low : Nat) : Prop :=
  ∃ u ∈ s.stack, g.Needs src u ∧ low = s.index u

/-- What connecting a node leaves. -/
structure Connected (g : Graph) (s : Search) (id : CalculationId) (r : Search × Nat) : Prop extends
    Grown g s id r.2 r.1 where
  met : id ∉ r.1.ahead
  low : r.2 = s.count ∨ LeadsTo g s id r.2

/-- What going through the precedents of a node leaves: those that are nodes have been met, and the
    index is at most that of any that waits. -/
structure Followed (g : Graph) (s : Search) (src : CalculationId) (low : Nat) (ps : List CalculationId)
    (r : Search × Nat) : Prop extends Grown g s src r.2 r.1 where
  low_le : r.2 ≤ low
  leads : LeadsTo g s src r.2
  passed : ∀ p ∈ ps, g.Edge src p → p ∉ r.1.ahead ∧ (p ∈ s.stack → r.2 ≤ s.index p)

variable {ps : List CalculationId} {r r' : Search × Nat}

namespace Followed

theorem nil (hs : Sound g s) (hl : LeadsTo g s src low) : Followed g s src low [] (s, low) where
  toGrown := .refl hs src low
  low_le := Nat.le_refl _
  leads := hl
  passed _ hp := absurd hp List.not_mem_nil

/-- What connecting a precedent returns may take the place of the index so far. -/
theorem leads_connected (hs : Sound g s) (hedge : g.Edge src p) (hl : LeadsTo g s src low)
    (hc : Connected g s p r) : LeadsTo g r.1 src (min low r.2) := by
  obtain ⟨u, hu, hneeds, hlow⟩ := hl
  have hold : LeadsTo g r.1 src low := ⟨u, hc.mem_stack hu, hneeds, by rw [hlow, hc.index_waiting hs hu]⟩
  rcases Nat.le_total low r.2 with hle | hle
  · rwa [Nat.min_eq_left hle]
  · rw [Nat.min_eq_right hle]
    rcases hc.low with hcount | ⟨v, hv, hneeds', hlow'⟩
    · -- The precedent has closed its component: its index is none of those that wait.
      have := hs.index_lt u hu
      omega
    · exact ⟨v, hc.mem_stack hv, .head hedge hneeds', by rw [hlow', hc.index_waiting hs hv]⟩

theorem leads_waiting (hp : p ∈ s.stack) (hedge : g.Edge src p) (hl : LeadsTo g s src low) :
    LeadsTo g s src (min low (s.index p)) := by
  rcases Nat.le_total low (s.index p) with hle | hle
  · rwa [Nat.min_eq_left hle]
  · rw [Nat.min_eq_right hle]
    exact ⟨p, hp, .single hedge, rfl⟩

theorem connect (hs : Sound g s) (hp : p ∈ s.ahead) (hedge : g.Edge src p) (hl : LeadsTo g s src low)
    (hc : Connected g s p r) (hf : Followed g r.1 src (min low r.2) ps r') : Followed g s src low (p :: ps) r' := by
  have hmin := Nat.le_min.mp hf.low_le
  have hgrown : Grown g s src r'.2 r'.1 := .trans hs (hc.toGrown.of_needs (.single hedge)) hf.toGrown hmin.2
  refine ⟨hgrown, hmin.1, ?_, List.forall_mem_cons.mpr ⟨fun _ => ?_, fun q hq hedge' => ?_⟩⟩
  · obtain ⟨u, hu, hneeds, hlow⟩ := hf.leads
    obtain ⟨new, hstack, hnew⟩ := hc.stack
    rw [hstack] at hu
    rcases List.mem_append.mp hu with hu | hu
    · -- What the precedent has left on the stack was met later than all that waited before.
      obtain ⟨v, hv, -, rfl⟩ := hl
      have hlater := (hnew u hu).later
      have hlt := hs.index_lt v hv
      omega
    · exact ⟨u, hu, hneeds, by rw [hlow, hc.index_waiting hs hu]⟩
  · exact ⟨fun hx => hc.met (hf.ahead p hx), fun hx => absurd hx (hs.unmet p hp).1⟩
  · obtain ⟨hmet, hle⟩ := hf.passed q hq hedge'
    refine ⟨hmet, fun hwaits => ?_⟩
    rw [← hc.index_waiting hs hwaits]
    exact hle (hc.mem_stack hwaits)

theorem meets (hp : p ∉ s.ahead) (hf : Followed g s src (min low (s.index p)) ps r) :
    Followed g s src low (p :: ps) r := by
  have hmin := Nat.le_min.mp hf.low_le
  refine ⟨hf.toGrown, hmin.1, hf.leads, List.forall_mem_cons.mpr ⟨fun _ => ?_, hf.passed⟩⟩
  exact ⟨fun hx => hp (hf.ahead p hx), fun _ => hmin.2⟩

theorem passes (hp : p ∉ s.ahead) (hw : p ∉ s.stack) (hf : Followed g s src low ps r) :
    Followed g s src low (p :: ps) r := by
  refine ⟨hf.toGrown, hf.low_le, hf.leads, List.forall_mem_cons.mpr ⟨fun _ => ?_, hf.passed⟩⟩
  exact ⟨fun hx => hp (hf.ahead p hx), fun hx => absurd hx hw⟩

end Followed

namespace Connected

/-- A node that leads to one that was met before it waits, with all that was met after it. -/
theorem wait (hs : Sound g s) (hid : id ∈ s.ahead)
    (hf : Followed g (s.meet id) id s.count (g.precedentsOf id).toList r) (hlow : r.2 ≠ s.count) :
    Connected g s id r := by
  obtain ⟨hgrown, hle, ⟨v, hv, hneeds, hv'⟩, hpassed⟩ := hf
  have hself : id ∉ (s.meet id).ahead := fun h => (mem_erase_iff.mp h).1 rfl
  have hindex : ∀ x ∈ s.stack, (s.meet id).index x = s.index x := fun x hx => hs.index_meet_waiting hid hx
  have hindexid : (s.meet id).index id = s.count := by rw [index_meet, if_pos rfl]
  -- The index is that of a node that was met before.
  have hvold : v ∈ s.stack := by
    refine (List.mem_cons.mp hv).resolve_left fun h => hlow ?_
    rw [hv', h, hindexid]
  have hlead : LeadsTo g s id r.2 := ⟨v, hvold, hneeds, by rw [hv', hindex v hvold]⟩
  have hlead' : ∀ w, g.Needs w id → ∃ u ∈ s.stack, g.Needs w u ∧ r.2 ≤ s.index u := by
    intro w hw
    exact ⟨v, hvold, hw.trans hneeds, Nat.le_of_eq (hv'.trans (hindex v hvold))⟩
  refine ⟨⟨hgrown.sound, fun x hx => (mem_erase_iff.mp (hgrown.ahead x hx)).2,
    fun x hx => hgrown.index_of_meet hid hx, Nat.le_of_succ_le hgrown.count, ?_⟩,
    fun h => hself (hgrown.ahead id h), .inr hlead⟩
  obtain ⟨new, hstack, hnew⟩ := hgrown.stack
  refine ⟨new ++ [id], by rw [hstack, List.append_assoc]; rfl, fun w hw => ?_⟩
  rcases List.mem_append.mp hw with hw | hw
  · obtain ⟨hmet, hlater, hbelow, ⟨u, hu, hwu, hu'⟩, hfollowed⟩ := hnew w hw
    refine ⟨(mem_erase_iff.mp hmet).2, Nat.le_of_succ_le hlater, hbelow, ?_, fun x hedge => ?_⟩
    · rcases List.mem_cons.mp hu with rfl | hu
      · exact hlead' w hwu
      · exact ⟨u, hu, hwu, hindex u hu ▸ hu'⟩
    · obtain ⟨hx, hstep⟩ := hfollowed x hedge
      exact ⟨hx, fun hin => hindex x hin ▸ hstep (List.mem_cons_of_mem _ hin)⟩
  · obtain rfl := List.mem_singleton.mp hw
    refine ⟨hid, ?_, .refl, hlead' w .refl, fun x hedge => ?_⟩
    · exact Nat.le_of_eq ((hgrown.index w hself).trans hindexid).symm
    · obtain ⟨hx, hstep⟩ := hpassed x (Std.TreeSet.mem_toList.mpr hedge.2.2) hedge
      exact ⟨hx, fun hin => hindex x hin ▸ hstep (List.mem_cons_of_mem _ hin)⟩

/-- If a node leads to none that was met before it, all that was met after it leads back to it. -/
theorem closes (hs : Sound g s) (hid : id ∈ s.ahead)
    (hf : Followed g (s.meet id) id s.count (g.precedentsOf id).toList r) (hlow : r.2 = s.count) :
    ∃ later, Closes g r.1 id later s.stack := by
  obtain ⟨hgrown, -, -, hpassed⟩ := hf
  -- What was met before has smaller indices.
  have hbefore : ∀ x ∈ s.stack, ¬ r.2 ≤ (s.meet id).index x := by
    intro x hx
    have := hs.index_lt x hx
    rw [hs.index_meet_waiting hid hx]
    omega
  obtain ⟨later, hstack, hlater⟩ := hgrown.stack
  refine ⟨later, hgrown.sound, hstack, fun w hw => (mem_erase_iff.mp (hlater w hw).met).1, ?_, fun w hw => ?_,
    fun w hw x hedge => ?_⟩
  · rintro w (hw | rfl)
    · exact (hs.unmet w (mem_erase_iff.mp (hlater w hw).met).2).1
    · exact (hs.unmet w hid).1
  · obtain ⟨u, hu, hwu, hle⟩ := (hlater w hw).leads
    rcases List.mem_cons.mp hu with rfl | hu
    · exact ⟨(hlater w hw).below, hwu⟩
    · exact absurd hle (hbefore u hu)
  · have hfollowed : x ∉ r.1.ahead ∧ (x ∈ (s.meet id).stack → r.2 ≤ (s.meet id).index x) := by
      rcases hw with hw | rfl
      · exact (hlater w hw).followed x hedge
      · exact hpassed x (Std.TreeSet.mem_toList.mpr hedge.2.2) hedge
    exact ⟨hfollowed.1, fun hx => hbefore x hx (hfollowed.2 (List.mem_cons_of_mem _ hx))⟩

/-- A node that leads to none that was met before it closes its component. -/
theorem close (hs : Sound g s) (hid : id ∈ s.ahead)
    (hf : Followed g (s.meet id) id s.count (g.precedentsOf id).toList r) (hlow : r.2 = s.count) :
    Connected g s id (r.1.close g id, r.2) := by
  obtain ⟨later, hcloses⟩ := closes hs hid hf hlow
  have hgrown := hf.toGrown
  have hself : id ∉ (s.meet id).ahead := fun h => (mem_erase_iff.mp h).1 rfl
  refine ⟨⟨hcloses.sound_close, fun x hx => (mem_erase_iff.mp (hgrown.ahead x hx)).2,
    fun x hx => hgrown.index_of_meet hid hx, Nat.le_of_succ_le hgrown.count, [], hcloses.stack_close, ?_⟩,
    fun h => hself (hgrown.ahead id h), .inl hlow⟩
  exact fun w hw => absurd hw List.not_mem_nil

end Connected

/-! ### Whole searches -/

mutual

theorem connect_spec {s : Search} {id : CalculationId} (hs : Sound g s) (hid : id ∈ s.ahead) :
    Connected g s id (connect g s id hid).1 := by
  have hnode : id ∈ g.nodes := (hs.nodes id).mpr (.inl hid)
  have hlead : LeadsTo g (s.meet id) id s.count :=
    ⟨id, List.mem_cons_self, .refl, by rw [index_meet, if_pos rfl]⟩
  have hf := follow_spec (hs.meet hid) hnode hlead (fun p hp => Std.TreeSet.mem_toList.mp hp)
  unfold connect
  dsimp only
  split
  · next hlow => exact .close hs hid hf hlow
  · next hlow => exact .wait hs hid hf hlow
termination_by (s.ahead.size, 0)
decreasing_by exact Prod.Lex.left _ _ (size_erase_lt hid)

theorem follow_spec {s : Search} {src : CalculationId} {low : Nat} {ps : List CalculationId} (hs : Sound g s)
    (hsrc : src ∈ g.nodes) (hl : LeadsTo g s src low) (hps : ∀ p ∈ ps, p ∈ g.precedentsOf src) :
    Followed g s src low ps (follow g s low ps).1 := by
  cases ps with
  | nil =>
    unfold follow
    exact .nil hs hl
  | cons p ps =>
    obtain ⟨hp, hps⟩ := List.forall_mem_cons.mp hps
    unfold follow
    split
    · next hahead =>
      have hedge : g.Edge src p := ⟨hsrc, (hs.nodes p).mpr (.inl hahead), hp⟩
      have hc := connect_spec hs hahead
      have hlt := (connect g s p hahead).2
      -- What the new node leads to, the source of the edge leads to as well.
      have hf := follow_spec hc.sound hsrc (Followed.leads_connected hs hedge hl hc) hps
      exact .connect hs hahead hedge hl hc hf
    · next hahead =>
      split
      · next hwaits =>
        have hedge : g.Edge src p := ⟨hsrc, (hs.nodes p).mpr (.inr (.inl hwaits)), hp⟩
        exact .meets hahead (follow_spec hs hsrc (Followed.leads_waiting hwaits hedge hl) hps)
      · next hwaits => exact .passes hahead hwaits (follow_spec hs hsrc hl hps)
termination_by (s.ahead.size, ps.length + 1)

end

/-- A search from every node in turn leaves no node ahead and none on the stack. -/
theorem foldl_visit_spec {ids : List CalculationId} (hs : Sound g s) (hstack : s.stack = [])
    (hids : ∀ x ∈ s.ahead, x ∈ ids) :
    Sound g (ids.foldl (visit g) s) ∧ (ids.foldl (visit g) s).stack = [] ∧
      ∀ x, x ∉ (ids.foldl (visit g) s).ahead := by
  induction ids generalizing s with
  | nil => exact ⟨hs, hstack, fun x hx => absurd (hids x hx) List.not_mem_nil⟩
  | cons id ids ih =>
    rw [List.foldl_cons]
    unfold visit
    split
    · next hid =>
      obtain ⟨hgrown, hmet, -⟩ := connect_spec hs hid
      obtain ⟨new, hnew, hwaits⟩ := hgrown.stack
      -- What still waits leads to something that waited before the visit, and nothing did.
      have hnil : new = [] := List.eq_nil_iff_forall_not_mem.mpr fun w hw => by
        obtain ⟨u, hu, -⟩ := (hwaits w hw).leads
        exact absurd (hstack ▸ hu) List.not_mem_nil
      refine ih hgrown.sound (by rw [hnew, hnil, hstack]; rfl) fun x hx => ?_
      refine (List.mem_cons.mp (hids x (hgrown.ahead x hx))).resolve_left ?_
      rintro rfl
      exact hmet hx
    · next hid =>
      refine ih hs hstack fun x hx => (List.mem_cons.mp (hids x hx)).resolve_left ?_
      rintro rfl
      exact hid hx

end Search

namespace Graph

variable {g : Graph}

theorem components_spec (g : Graph) : ∃ s, Search.Sound g s ∧ s.components = g.components ∧
    ∀ x, x ∈ g.nodes ↔ s.Closed x := by
  have hnodes : ∀ x ∈ (Search.start g).ahead, x ∈ g.nodes.toList := fun x hx => Std.TreeSet.mem_toList.mpr hx
  obtain ⟨hs, hstack, hahead⟩ := Search.foldl_visit_spec (.start g) rfl hnodes
  refine ⟨_, hs, rfl, fun x => ?_⟩
  rw [hs.nodes, hstack]
  simp [hahead x]

theorem isComponent_of_mem {k : Component} (hk : k ∈ g.components) : g.IsComponent k.members := by
  obtain ⟨s, hs, heq, -⟩ := g.components_spec
  exact hs.components k (heq ▸ hk)

theorem isCycle_iff {k : Component} (hk : k ∈ g.components) :
    k.isCycle = true ↔ ∃ v ∈ k.members, TransGen g.Edge v v := by
  obtain ⟨s, hs, heq, -⟩ := g.components_spec
  exact hs.cycles k (heq ▸ hk)

/-- Every node is in a component, and nothing else is. -/
theorem exists_component {x : CalculationId} : (∃ k ∈ g.components, x ∈ k.members) ↔ x ∈ g.nodes := by
  obtain ⟨s, -, heq, hclosed⟩ := g.components_spec
  rw [hclosed x, ← heq]
  rfl

/-- No component needs one that comes after it. -/
theorem pairwise_components (g : Graph) :
    g.components.Pairwise fun k k' => ∀ a ∈ k.members, ∀ b ∈ k'.members, ¬ g.Needs a b := by
  obtain ⟨s, hs, heq, -⟩ := g.components_spec
  exact heq ▸ hs.pairwise

end Graph

end MonthlyModel.Dependency
