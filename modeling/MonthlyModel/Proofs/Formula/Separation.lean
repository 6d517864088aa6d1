import MonthlyModel.Proofs.Formula.Names

/-! What stands between the numbers, references and words of a formula.

The grammar has no place for two of them in a row, so after one of them there is a mark: an operator, a
comma or a bracket. Where there is no blank before it, the mark is the next character of the text. -/

namespace MonthlyModel.Formula

/-! ### Tokens -/

/-- Numbers, references and words, which would run together without something between them. -/
def Token.isOperand : Token → Bool
  | .number _ | .reference _ | .word _ => true
  | _ => false

theorem reference?_of_isOperand {t : Token} (h : t.isOperand = false) : t.reference? = none := by
  cases t with
  | reference r => cases h
  | _ => rfl

/-- What formulas are made of: no stray characters, and no words but names of functions. -/
def Token.Known : Token → Prop
  | .stray _ => False
  | .word name => ∃ f, Function.ofName? name.toList = some f
  | _ => True

/-- Tokens that formulas are made of, no two operands next to each other. -/
structure Separated (ts : List Token) : Prop where
  known : ∀ t ∈ ts, t.Known
  apart : ts.IsChain fun t u => t.isOperand = true → u.isOperand = false

theorem Separated.nil : Separated [] :=
  ⟨by simp, .nil⟩

theorem Separated.singleton {t : Token} (h : t.Known) : Separated [t] :=
  ⟨by simpa using h, .singleton t⟩

theorem Separated.of_cons {t : Token} {ts : List Token} (h : Separated (t :: ts)) : Separated ts :=
  ⟨fun u hu => h.known u (List.mem_cons_of_mem _ hu), h.apart.tail⟩

/-- A token that is no operand separates whatever stands on its sides. -/
theorem Separated.append_cons {ts us : List Token} {t : Token} (hts : Separated ts) (hus : Separated us) (ht : t.Known)
    (hoperand : t.isOperand = false) : Separated (ts ++ t :: us) := by
  refine ⟨?_, ?_⟩
  · intro u hu
    rcases List.mem_append.mp hu with hu | hu
    · exact hts.known u hu
    · rcases List.mem_cons.mp hu with rfl | hu
      · exact ht
      · exact hus.known u hu
  · refine List.isChain_append.mpr ⟨hts.apart, ?_, ?_⟩
    · refine List.isChain_cons.mpr ⟨fun u _ h => ?_, hus.apart⟩
      rw [hoperand] at h
      cases h
    · rintro u - v hv -
      cases hv
      exact hoperand

theorem Separated.cons {ts : List Token} {t : Token} (hts : Separated ts) (ht : t.Known) (hoperand : t.isOperand = false) :
    Separated (t :: ts) :=
  Separated.nil.append_cons hts ht hoperand

theorem Separated.closed {ts : List Token} (hts : Separated ts) : Separated (.open :: ts ++ [.close]) :=
  have hclose : Separated (ts ++ [.close]) := hts.append_cons .nil trivial rfl
  hclose.cons trivial rfl

mutual

theorem Derives.separated {k : Nat} {ts : List Token} {e : Expr} : Derives k ts e → Separated ts
  | .number x => .singleton trivial
  | .reference r => .singleton trivial
  | .brackets he => he.separated.closed
  | @Derives.call name f _ _ hn hes _ =>
    have hname : Separated [.word name] := .singleton ⟨f, hn⟩
    have hclose := hes.separated.append_cons (t := .close) .nil trivial rfl
    hname.append_cons hclose trivial rfl
  | .minus he => he.separated.cons trivial rfl
  | .plus he => he.separated.cons trivial rfl
  | .binary _ hl hr => .append_cons hl.separated hr.separated trivial rfl
  | .looser he => he.separated

theorem DerivesAll.separated {ts : List Token} {es : List Expr} : DerivesAll ts es → Separated ts
  | .nil => .nil
  | .one he => he.separated
  | .cons he hes => .append_cons he.separated hes.separated trivial rfl

end

/-! ### Characters -/

/-- The characters of operators, commas and brackets. -/
def marks : List Char :=
  ['+', '-', '*', '/', '^', ',', '(', ')', '<', '>', '=']

namespace Lexeme

variable {c : Char} {cs : List Char}

/-- A lexeme is made of marks, or it is a numeral, a word or a stray character. -/
theorem first_cases (c : Char) (cs : List Char) :
    (c ∈ marks ∧ (∀ d ∈ (first c cs).1.chars, d ∈ marks) ∧ (first c cs).1.token.isOperand = false) ∨
      first c cs = numeralOrWord c cs := by
  have hor (short long : Operator) (c : Char) (hc : c ∈ marks) :
      (∀ d ∈ (orEqual short long c cs).1.chars, d ∈ marks) ∧ (orEqual short long c cs).1.token.isOperand = false := by
    have hequal : '=' ∈ marks := by decide
    unfold orEqual
    split <;> simp [hc, hequal, Token.isOperand]
  unfold first
  split
  case h_9 | h_10 | h_11 => exact .inl ⟨by decide, hor _ _ _ (by decide)⟩
  case h_12 => exact .inr rfl
  all_goals exact .inl ⟨by decide, by simp [one, marks], rfl⟩

/-- A lexeme is a numeral, a word that starts with a letter or an underscore, or a stray character. -/
theorem numeralOrWord_cases (c : Char) (cs : List Char) :
    (numeralOrWord c cs).1 =
        ⟨.ofNumeral (Decimal.takeNumeral (c :: cs)).1, (Decimal.takeNumeral (c :: cs)).1⟩ ∨
      startsWord c = true ∧ (numeralOrWord c cs).1 =
        ⟨.ofWord (c :: cs.takeWhile isWordChar) (cs.dropWhile isWordChar), c :: cs.takeWhile isWordChar⟩ ∨
      (numeralOrWord c cs).1 = ⟨.stray c, [c]⟩ := by
  unfold numeralOrWord
  split
  · exact .inl rfl
  · split
    · next h => exact .inr (.inl ⟨h, rfl⟩)
    · exact .inr (.inr rfl)

theorem isOperand_ofNumeral (cs : List Char) : (Token.ofNumeral cs).isOperand = true := by
  unfold Token.ofNumeral
  split <;> rfl

theorem isOperand_ofWord (cs rest : List Char) : (Token.ofWord cs rest).isOperand = true := by
  unfold Token.ofWord
  split
  · rfl
  · split <;> rfl

theorem isOperand_numeralOrWord (h : (numeralOrWord c cs).1.token.Known) :
    (numeralOrWord c cs).1.token.isOperand = true := by
  rcases numeralOrWord_cases c cs with hcases | ⟨-, hcases⟩ | hcases
  · rw [hcases]
    exact isOperand_ofNumeral _
  · rw [hcases]
    exact isOperand_ofWord _ _
  · rw [hcases] at h
    cases h

end Lexeme

/-- The character after an operand is a blank or a mark. -/
theorem Separated.head_rest {c : Char} {cs rest : List Char} (h : Separated (tokens cs))
    (hcs : Text.trimFront cs = c :: rest) (hoperand : (Lexeme.first c rest).1.token.isOperand = true) :
    ∀ d ∈ (Lexeme.first c rest).2.head?, Text.isBlank d = true ∨ d ∈ marks := by
  rw [tokens, lexemes_eq_cons hcs, List.map_cons] at h
  cases hr : (Lexeme.first c rest).2 with
  | nil => exact fun d hd => by cases hd
  | cons d ds =>
    rintro d' ⟨⟩
    cases hblank : Text.isBlank d with
    | true => exact .inl rfl
    | false =>
      have htrim : Text.trimFront (d :: ds) = d :: ds := List.dropWhile_cons_of_neg (by simp [hblank])
      rw [hr, lexemes_eq_cons htrim, List.map_cons] at h
      rcases Lexeme.first_cases d ds with ⟨hmark, -⟩ | hfirst
      · exact .inr hmark
      · have hknown := h.known (Lexeme.first d ds).1.token (by simp)
        have hnot := (List.isChain_cons_cons.mp h.apart).1 hoperand
        rw [hfirst] at hknown hnot
        rw [Lexeme.isOperand_numeralOrWord hknown] at hnot
        cases hnot

end MonthlyModel.Formula
