import MonthlyModel.Reference

/-!
The order of references: by family, then by path, segment by segment and a shorter path before its
extensions, then by name and edge. The order is that of a list of numbers, the rank of the reference;
different references have different ranks.
-/

namespace MonthlyModel

namespace Reference

/-- A list of numbers with an end mark that is smaller than every item: a list comes before its
extensions, and what follows the mark is told apart from it. -/
def marked (ns : List Nat) : List Nat :=
  ns.map (· + 1) ++ [0]

/-- The place of a name in the order, by its characters; no name comes first. -/
def nameRank : Option String → List Nat
  | none => [0]
  | some name => 1 :: marked (name.toList.map Char.toNat)

/-- The place of an edge in the order; no edge comes first. -/
def edgeRank : Option FlagEdge → Nat
  | none => 0
  | some .start => 1
  | some .finish => 2

/-- The place of a reference in the order. -/
def rank (r : Reference) : List Nat :=
  r.family.rank :: (marked (r.path.map UInt32.toNat) ++ nameRank r.name ++ [edgeRank r.edge])

instance : Ord Reference where
  compare r s := compare r.rank s.rank

theorem marked_append_inj {ms ns xs ys : List Nat} (h : marked ms ++ xs = marked ns ++ ys) :
    ms = ns ∧ xs = ys := by
  induction ms generalizing ns with
  | nil => cases ns <;> simp_all [marked]
  | cons m ms ih =>
    cases ns with
    | nil => simp [marked] at h
    | cons n ns =>
      simp only [marked, List.map_cons, List.cons_append, List.cons.injEq, Nat.add_right_cancel_iff] at h
      obtain ⟨hn, hs⟩ := @ih ns (by simpa [marked] using h.2)
      exact ⟨by rw [h.1, hn], hs⟩

theorem toList_map_toNat_inj {s t : String} (h : s.toList.map Char.toNat = t.toList.map Char.toNat) :
    s = t :=
  String.toList_injective ((List.map_inj_right fun _ _ h => Char.toNat_inj.1 h).1 h)

theorem nameRank_append_inj {m n : Option String} {xs ys : List Nat}
    (h : nameRank m ++ xs = nameRank n ++ ys) : m = n ∧ xs = ys := by
  cases m <;> cases n <;> simp only [nameRank, List.cons_append, List.nil_append, List.cons.injEq] at h
  · exact ⟨rfl, h.2⟩
  · exact absurd h.1 (by decide)
  · exact absurd h.1 (by decide)
  · obtain ⟨hn, hs⟩ := marked_append_inj h.2
    exact ⟨congrArg some (toList_map_toNat_inj hn), hs⟩

theorem edgeRank_inj {d e : Option FlagEdge} (h : edgeRank d = edgeRank e) : d = e := by
  rcases d with _ | _ | _ <;> rcases e with _ | _ | _ <;> simp_all [edgeRank]

theorem familyRank_inj {f g : Family} (h : f.rank = g.rank) : f = g := by
  cases f <;> cases g <;> simp_all [Family.rank]

theorem rank_inj {r s : Reference} (h : r.rank = s.rank) : r = s := by
  obtain ⟨f, p, n, e⟩ := r
  obtain ⟨g, q, m, d⟩ := s
  simp only [rank, List.cons.injEq, List.append_assoc] at h
  obtain ⟨hf, h⟩ := h
  obtain ⟨hp, h⟩ := marked_append_inj h
  obtain ⟨rfl, he⟩ := nameRank_append_inj h
  obtain rfl := familyRank_inj hf
  obtain rfl := (List.map_inj_right fun _ _ h => UInt32.toNat_inj.1 h).1 hp
  obtain rfl := edgeRank_inj (List.singleton_inj.1 he)
  rfl

instance : Std.TransOrd Reference where
  eq_swap {r s} := @Std.OrientedCmp.eq_swap (List Nat) compare _ r.rank s.rank
  isLE_trans {r s t} := @Std.TransCmp.isLE_trans (List Nat) compare _ r.rank s.rank t.rank

instance : Std.LawfulEqOrd Reference where
  compare_self {r} := @Std.ReflCmp.compare_self (List Nat) compare _ r.rank
  eq_of_compare {r s} h := rank_inj (@Std.LawfulEqCmp.eq_of_compare (List Nat) compare _ r.rank s.rank h)

end Reference

end MonthlyModel
