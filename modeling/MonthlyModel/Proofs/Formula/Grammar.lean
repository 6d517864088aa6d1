import Mathlib.Data.List.Basic
import MonthlyModel.Formula.Parser
import MonthlyModel.Formula.Names
import MonthlyModel.Proofs.Formula.Expr
import MonthlyModel.Proofs.Outcome

/-! The grammar of formulas.

Tokens derive an expression at a level: levels 1 to 4 are those of the operators, an operand with
its signs stands at level 5 and one without signs at level 6. What can be derived at a level can be
derived at every looser one. The parser is sound: tokens that it reads as an expression derive that
expression, so a statement about formulas can be proved by induction on the grammar. -/

namespace MonthlyModel.Formula

/-- The loosest level of an unbracketed left operand. -/
def Operator.leftStrength (o : Operator) : Nat :=
  if o = .power then o.strength + 1 else o.strength

mutual

/-- The tokens derive the expression at the level. -/
inductive Derives : Nat → List Token → Expr → Prop where
  | number (x : Float) : Derives 6 [.number x] (.number x)
  | reference (r : Reference) : Derives 6 [.reference r] (.reference r)
  | brackets {ts : List Token} {e : Expr} (he : Derives 1 ts e) : Derives 6 (.open :: ts ++ [.close]) e
  | call {name : String} {f : Function} {ts : List Token} {es : List Expr}
    (hn : Function.ofName? name.toList = some f) (hes : DerivesAll ts es) (hf : f.takes es.length = true) :
    Derives 6 (.word name :: .open :: ts ++ [.close]) (.call f es)
  | minus {ts : List Token} {e : Expr} (he : Derives 5 ts e) :
    Derives 5 (.operator .subtract :: ts) (.negate e)
  | plus {ts : List Token} {e : Expr} (he : Derives 5 ts e) : Derives 5 (.operator .add :: ts) e
  | binary (o : Operator) {ls rs : List Token} {l r : Expr} (hl : Derives o.leftStrength ls l)
    (hr : Derives o.rightStrength rs r) : Derives o.strength (ls ++ .operator o :: rs) (.binary o l r)
  | looser {k : Nat} {ts : List Token} {e : Expr} (he : Derives (k + 1) ts e) : Derives k ts e

/-- The tokens derive the expressions, divided by commas. -/
inductive DerivesAll : List Token → List Expr → Prop where
  | nil : DerivesAll [] []
  | one {ts : List Token} {e : Expr} (he : Derives 1 ts e) : DerivesAll ts [e]
  | cons {ts us : List Token} {e e' : Expr} {es : List Expr} (he : Derives 1 ts e)
    (hes : DerivesAll us (e' :: es)) : DerivesAll (ts ++ .comma :: us) (e :: e' :: es)

end

theorem Derives.of_le {j k : Nat} {ts : List Token} {e : Expr} (h : Derives k ts e) (hjk : j ≤ k) :
    Derives j ts e := by
  induction k with
  | zero =>
    obtain rfl := Nat.le_zero.mp hjk
    exact h
  | succ k ih =>
    rcases Nat.le_succ_iff.mp hjk with hjk | rfl
    · exact ih h.looser hjk
    · exact h

/-! ### What the parser reads is derived -/

theorem Operator.leftStrength_le (o : Operator) : o.leftStrength ≤ 5 := by
  cases o <;> decide

theorem Operator.rightStrength_le (o : Operator) : o.rightStrength ≤ 5 := by
  cases o <;> decide

/-- No operator stands in front that binds what comes before it more tightly than the level. -/
def Stops (k : Nat) (ts : List Token) : Prop :=
  ∀ o rest, ts = .operator o :: rest → o.leftStrength ≤ k

theorem eq_of_closing {depth : Nat} {ts : List Token} {rest : Shorter ts} (h : closing depth ts = .ok rest) :
    ts = .close :: rest.1 := by
  unfold closing at h
  split at h
  all_goals cases h
  rfl

theorem makeCall_eq_ok_iff {f : Function} {es : List Expr} {e : Expr} :
    makeCall f es = .ok e ↔ f.takes es.length = true ∧ e = .call f es := by
  unfold makeCall
  split
  · next h => simp [h, eq_comm]
  · next h => simp [h]

theorem Operator.leftStrength_le_of_lt {o o' : Operator} (h : o'.strength < o.rightStrength) :
    o'.leftStrength ≤ o.strength := by
  cases o <;> cases o' <;> revert h <;> decide

mutual

theorem derives_of_operand {depth : Nat} {ts : List Token} {e : Expr} {rest : Shorter ts}
    (h : operand depth ts = .ok (e, rest)) : ∃ used, ts = used ++ rest.1 ∧ Derives 5 used e := by
  unfold operand at h
  split at h
  · obtain ⟨⟨e', rest'⟩, hr, h⟩ := bind_eq_ok_iff.mp h
    cases h
    obtain ⟨used, hu, he⟩ := derives_of_operand hr
    exact ⟨_ :: used, congrArg _ hu, he.minus⟩
  · obtain ⟨⟨e', rest'⟩, hr, h⟩ := bind_eq_ok_iff.mp h
    cases h
    obtain ⟨used, hu, he⟩ := derives_of_operand hr
    exact ⟨_ :: used, congrArg _ hu, he.plus⟩
  · cases h
    exact ⟨[_], rfl, (Derives.number _).looser⟩
  · cases h
    exact ⟨[_], rfl, (Derives.reference _).looser⟩
  · obtain ⟨⟨e', rest'⟩, hr, h⟩ := bind_eq_ok_iff.mp h
    obtain ⟨rest'', hc, h⟩ := bind_eq_ok_iff.mp h
    cases h
    obtain ⟨used, hu, he, -⟩ := derives_of_expression hr (by decide)
    refine ⟨.open :: used ++ [.close], ?_, he.brackets.looser⟩
    simpa [eq_of_closing hc] using hu
  · split at h
    · next f hf =>
      obtain ⟨⟨es, rest'⟩, hr, h⟩ := bind_eq_ok_iff.mp h
      obtain ⟨e', hc, h⟩ := bind_eq_ok_iff.mp h
      cases h
      obtain ⟨ht, rfl⟩ := makeCall_eq_ok_iff.mp hc
      obtain ⟨used, hu, hes⟩ := derives_of_arguments hr
      refine ⟨.word _ :: .open :: used ++ [.close], ?_, (Derives.call hf hes ht).looser⟩
      simpa using hu
    · cases h
  all_goals cases h
termination_by (ts.length, 0)

theorem derives_of_expression {depth least : Nat} {ts : List Token} {e : Expr} {rest : Shorter ts}
    (h : expression depth least ts = .ok (e, rest)) (hl : least ≤ 5) :
    ∃ used, ts = used ++ rest.1 ∧ Derives least used e ∧
      ∀ o rest', rest.1 = .operator o :: rest' → o.strength < least := by
  unfold expression at h
  obtain ⟨⟨l, mid, hlt⟩, hm, h⟩ := bind_eq_ok_iff.mp h
  obtain ⟨⟨e', rest'⟩, hr, h⟩ := bind_eq_ok_iff.mp h
  cases h
  obtain ⟨front, hf, he⟩ := derives_of_operand hm
  -- An operand is of the highest level, so it can be the left operand of any operator.
  obtain ⟨used, hu, hc⟩ := derives_of_climb hr he hl (fun o _ _ => o.leftStrength_le)
  exact ⟨front ++ used, by rw [List.append_assoc, ← hu, ← hf], hc⟩
termination_by (ts.length, 1)

/-- An operand at level `k` is taken for the left operand of what follows, as long as no operator
    follows that binds it more tightly than that. -/
theorem derives_of_climb {depth least k : Nat} {left e : Expr} {front ts : List Token}
    {rest : { rest : List Token // rest.length ≤ ts.length }} (h : climb depth least left ts = .ok (e, rest))
    (he : Derives k front left) (hl : least ≤ k) (hs : Stops k ts) :
    ∃ used, ts = used ++ rest.1 ∧ Derives least (front ++ used) e ∧
      ∀ o rest', rest.1 = .operator o :: rest' → o.strength < least := by
  unfold climb at h
  split at h
  · next o more =>
    split at h
    · next ho =>
      cases h
      refine ⟨[], rfl, ?_, ?_⟩
      · rw [List.append_nil]
        exact he.of_le hl
      · rintro o' rest' ⟨⟩
        exact ho
    · next ho =>
      obtain ⟨⟨right, mid, hlt⟩, hm, h⟩ := bind_eq_ok_iff.mp h
      have hmid : mid.length < (Token.operator o :: more).length := Nat.lt_succ_of_lt hlt
      obtain ⟨⟨e', rest'⟩, hr, h⟩ := bind_eq_ok_iff.mp h
      cases h
      obtain ⟨us, hu, hright, hstop⟩ := derives_of_expression hm o.rightStrength_le
      -- The two operands make a left operand for what follows: the right one stopped at an operator that binds
      -- no more tightly.
      have hb := Derives.binary o (he.of_le (hs o more rfl)) hright
      obtain ⟨vs, hv, hd, hend⟩ := derives_of_climb hr hb (by omega)
        (fun o' ts' h' => Operator.leftStrength_le_of_lt (hstop o' ts' h'))
      refine ⟨.operator o :: us ++ vs, ?_, ?_, hend⟩
      · simp [hu, hv]
      · simpa using hd
  · next hne =>
    cases h
    refine ⟨[], rfl, ?_, ?_⟩
    · rw [List.append_nil]
      exact he.of_le hl
    · intro o rest' h'
      exact absurd h' (hne o rest')
termination_by (ts.length, 0)

theorem derives_of_arguments {depth : Nat} {ts : List Token} {es : List Expr} {rest : Shorter ts}
    (h : arguments depth ts = .ok (es, rest)) :
    ∃ used, ts = used ++ .close :: rest.1 ∧ DerivesAll used es := by
  unfold arguments at h
  split at h
  · cases h
    exact ⟨[], rfl, .nil⟩
  · obtain ⟨⟨es', mid⟩, hm, h⟩ := bind_eq_ok_iff.mp h
    obtain ⟨rest', hc, h⟩ := bind_eq_ok_iff.mp h
    cases h
    obtain ⟨used, hu, e, es, rfl, hes⟩ := derives_of_argumentList hm
    exact ⟨used, hu.trans (congrArg _ (eq_of_closing hc)), hes⟩
termination_by (ts.length, 3)

theorem derives_of_argumentList {depth : Nat} {ts : List Token} {es : List Expr} {rest : Shorter ts}
    (h : argumentList depth ts = .ok (es, rest)) :
    ∃ used, ts = used ++ rest.1 ∧ ∃ e es', es = e :: es' ∧ DerivesAll used (e :: es') := by
  unfold argumentList at h
  obtain ⟨⟨e, mid, hlt⟩, hm, h⟩ := bind_eq_ok_iff.mp h
  obtain ⟨used, hu, he, -⟩ := derives_of_expression hm (by decide)
  cases mid with
  | nil =>
    cases h
    exact ⟨used, hu, e, [], rfl, .one he⟩
  | cons t more =>
    have hmore : more.length < ts.length := Nat.lt_of_succ_lt hlt
    cases t with
    | comma =>
      obtain ⟨⟨es', rest'⟩, hr, h⟩ := bind_eq_ok_iff.mp h
      cases h
      obtain ⟨vs, hv, e', es', rfl, hes⟩ := derives_of_argumentList hr
      exact ⟨used ++ .comma :: vs, by simp [hu, hv], e, _, rfl, .cons he hes⟩
    | _ =>
      cases h
      exact ⟨used, hu, e, [], rfl, .one he⟩
termination_by (ts.length, 2)

end

theorem derives_of_ofTokens {ts : List Token} {e : Expr} (h : ofTokens ts = .ok e) : Derives 1 ts e := by
  obtain ⟨⟨e', rest, hlt⟩, he, h⟩ := bind_eq_ok_iff.mp h
  obtain ⟨used, hu, he, -⟩ := derives_of_expression he (by decide)
  cases rest with
  | nil =>
    cases h
    rwa [hu, List.append_nil]
  | cons t rest => cases t <;> cases h

theorem ofTokens_of_parse {cs : List Char} {e : Expr} (h : parse cs = .ok e) :
    ofTokens (tokens (body cs)) = .ok e := by
  unfold parse at h
  split at h
  · cases h
  · exact h

theorem derives_of_parse {cs : List Char} {e : Expr} (h : parse cs = .ok e) :
    Derives 1 (tokens (body cs)) e :=
  derives_of_ofTokens (ofTokens_of_parse h)

/-! ### What is derived -/

mutual

/-- Calls are derived only with arguments that their functions take. -/
theorem Derives.applied {k : Nat} {ts : List Token} {e : Expr} : Derives k ts e → e.Applied
  | .number x => .number x
  | .reference r => .reference r
  | .brackets he => he.applied
  | .call _ hes hf => .call hf hes.applied
  | .minus he => .negate he.applied
  | .plus he => he.applied
  | .binary o hl hr => .binary o hl.applied hr.applied
  | .looser he => he.applied

theorem DerivesAll.applied {ts : List Token} {es : List Expr} : DerivesAll ts es → ∀ e ∈ es, e.Applied
  | .nil => fun _ he => absurd he List.not_mem_nil
  | .one he => List.forall_mem_singleton.mpr he.applied
  | .cons he hes => List.forall_mem_cons.mpr ⟨he.applied, hes.applied⟩

end

mutual

/-- An expression has the references of its tokens, in their order. -/
theorem Derives.references {k : Nat} {ts : List Token} {e : Expr} :
    Derives k ts e → e.references = ts.filterMap Token.reference?
  | .number x => rfl
  | .reference r => rfl
  | .brackets he => by simp [he.references, List.filterMap_cons, Token.reference?]
  | .call _ hes _ => by simp [Expr.references_call, hes.references, List.filterMap_cons, Token.reference?]
  | .minus he => by simp [Expr.references, he.references, List.filterMap_cons, Token.reference?]
  | .plus he => by simp [he.references, List.filterMap_cons, Token.reference?]
  | .binary o hl hr => by simp [Expr.references, hl.references, hr.references, List.filterMap_cons, Token.reference?]
  | .looser he => he.references

theorem DerivesAll.references {ts : List Token} {es : List Expr} :
    DerivesAll ts es → es.flatMap Expr.references = ts.filterMap Token.reference?
  | .nil => rfl
  | .one he => by simp [he.references]
  | .cons he hes => by
    rw [List.flatMap_cons, he.references, hes.references]
    simp [List.filterMap_cons, Token.reference?]

end

theorem applied_of_parse {cs : List Char} {e : Expr} (h : parse cs = .ok e) : e.Applied :=
  (derives_of_parse h).applied

end MonthlyModel.Formula
