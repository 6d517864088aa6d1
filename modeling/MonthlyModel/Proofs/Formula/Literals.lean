import MonthlyModel.Proofs.Double.Sign
import MonthlyModel.Proofs.Formula.Separation

/-! The literals of a formula.

A numeral has no sign: a minus sign is a token of its own and becomes a negation. So no literal of an
expression that a text writes is negative, not even as zero. -/

namespace MonthlyModel.Formula

/-- The literals of an expression from left to right. -/
def Expr.literals : Expr → List Float
  | .number x => [x]
  | .reference _ => []
  | .negate e => e.literals
  | .binary _ l r => l.literals ++ r.literals
  | .call _ es => literalsOfAll es
where
  /-- The literals of several expressions. -/
  literalsOfAll : List Expr → List Float
    | [] => []
    | e :: es => e.literals ++ literalsOfAll es

theorem Expr.literals_call (f : Function) (es : List Expr) : (call f es).literals = es.flatMap literals := by
  rw [literals]
  induction es with
  | nil => rfl
  | cons e es ih => rw [literals.literalsOfAll, ih, List.flatMap_cons]

def Token.number? : Token → Option Float
  | .number x => some x
  | _ => none

mutual

/-- An expression has the literals of its tokens, in their order. -/
theorem Derives.literals {k : Nat} {ts : List Token} {e : Expr} :
    Derives k ts e → e.literals = ts.filterMap Token.number?
  | .number x => rfl
  | .reference r => rfl
  | .brackets he => by simp [he.literals, List.filterMap_cons, Token.number?]
  | .call _ hes _ => by simp [Expr.literals_call, hes.literals, List.filterMap_cons, Token.number?]
  | .minus he => by simp [Expr.literals, he.literals, List.filterMap_cons, Token.number?]
  | .plus he => by simp [he.literals, List.filterMap_cons, Token.number?]
  | .binary o hl hr => by simp [Expr.literals, hl.literals, hr.literals, List.filterMap_cons, Token.number?]
  | .looser he => he.literals

theorem DerivesAll.literals {ts : List Token} {es : List Expr} :
    DerivesAll ts es → es.flatMap Expr.literals = ts.filterMap Token.number?
  | .nil => rfl
  | .one he => by simp [he.literals]
  | .cons he hes => by
    rw [List.flatMap_cons, he.literals, hes.literals]
    simp [List.filterMap_cons, Token.number?]

end

/-! ### Numerals in a text -/

theorem number?_of_isOperand {t : Token} (h : t.isOperand = false) : t.number? = none := by
  cases t with
  | number => cases h
  | _ => rfl

theorem number?_ofWord (word rest : List Char) : (Token.ofWord word rest).number? = none := by
  unfold Token.ofWord
  split
  · rfl
  · split <;> rfl

theorem number?_ofNumeral (cs : List Char) : (Token.ofNumeral cs).number? = Decimal.numeral? cs := by
  unfold Token.ofNumeral
  cases Decimal.numeral? cs <;> rfl

theorem isNegative_of_number?_first {c : Char} {cs : List Char} {x : Float}
    (h : (Lexeme.first c cs).1.token.number? = some x) : Decimal.isNegative x = false := by
  rcases Lexeme.first_cases c cs with ⟨-, -, hoperand⟩ | hfirst
  · rw [number?_of_isOperand hoperand] at h
    cases h
  · rw [hfirst] at h
    rcases Lexeme.numeralOrWord_cases c cs with hcases | ⟨-, hcases⟩ | hcases
    · rw [hcases, number?_ofNumeral] at h
      exact Double.isNegative_numeral? h
    · rw [hcases, number?_ofWord] at h
      cases h
    · rw [hcases] at h
      cases h

theorem isNegative_of_mem_tokens {cs : List Char} : ∀ x ∈ (tokens cs).filterMap Token.number?, Decimal.isNegative x = false := by
  intro x hx
  obtain ⟨t, ht, htx⟩ := List.mem_filterMap.mp hx
  obtain ⟨c, rest, rfl⟩ := exists_first_of_mem_tokens ht
  exact isNegative_of_number?_first htx

/-- No literal of a formula has a sign. -/
theorem isNegative_of_parse {cs : List Char} {e : Expr} (h : parse cs = .ok e) :
    ∀ x ∈ e.literals, Decimal.isNegative x = false := by
  rw [(derives_of_parse h).literals]
  exact isNegative_of_mem_tokens

end MonthlyModel.Formula
