import MonthlyModel.Proofs.Formula.Parsing
import MonthlyModel.Proofs.Formula.Separation
import MonthlyModel.Proofs.Sheet.Convertibility
import MonthlyModel.Proofs.Sheet.Failure
import MonthlyModel.Proofs.Sheet.Striking

/-! Formulas that are taken for prose.

Between the operands of a formula stand blanks and marks, so each operand is struck out on its own. What is
left of a formula is left of the names of its time constants. -/

namespace MonthlyModel.Sheet

open Formula (Context Expr Token Lexeme Separated parse tokens body occurrences marks evaluateText)

variable {e : Expr} {c : Char} {cs bs : List Char}

/-! ### Texts of tokens -/

theorem divides_of_mem_marks (h : c ∈ marks) : Divides c := by
  have hmarks : ∀ c ∈ marks, c.toNat < 128 ∧ (c.isAlphanum || c = '_') = false ∧ c ≠ '.' := by
    simp [marks]
  obtain ⟨hlt, hword, hpoint⟩ := hmarks c h
  exact ⟨(Text.isWordChar_of_lt hlt).trans hword, hpoint⟩

theorem divides_of_isBlank (h : Text.isBlank c = true) : Divides c :=
  ⟨Text.isWordChar_of_blank h, Text.ne_of_isBlank h (by decide)⟩

theorem holdsProse_blanks (hb : ∀ b ∈ bs, Text.isBlank b = true) : holdsProse bs = false := by
  rw [← List.append_nil bs, holdsProse_others_append fun b h => Text.isWordChar_of_blank (hb b h), holdsProse_nil]

theorem holdsProse_trimFront (cs : List Char) : holdsProse (Text.trimFront cs) = holdsProse cs := by
  conv_rhs => rw [← List.takeWhile_append_dropWhile (p := Text.isBlank) (l := cs)]
  exact (holdsProse_others_append fun b hb => Text.isWordChar_of_blank (List.mem_takeWhile_imp hb)).symm

theorem holdsProse_body (cs : List Char) : holdsProse (body cs) = holdsProse cs := by
  obtain ⟨bs, hbs, hb⟩ := Text.exists_trim_append cs
  have hends : ∀ b ∈ bs.head?, Divides b := fun b h => divides_of_isBlank (hb b (List.mem_of_mem_head? h))
  have hequal : ∀ u ∈ ['='], Text.isWordChar u = false := by
    intro u hu
    rw [List.mem_singleton.mp hu]
    exact (divides_of_mem_marks (by decide)).1
  have hbody : holdsProse (body cs) = holdsProse (Text.trim cs) := by
    unfold body
    split
    · next rest h =>
      rw [h]
      exact (holdsProse_others_append hequal).symm
    · rfl
  rw [hbody, ← holdsProse_trimFront cs, hbs, holdsProse_append hends, holdsProse_blanks hb, Bool.or_false]

/-- Of a formula's lexeme at most the name of a time constant is left. -/
theorem holdsProse_lexeme (h : (Lexeme.numeralOrWord c cs).1.token.Known) :
    holdsProse (Lexeme.numeralOrWord c cs).1.chars = (Lexeme.numeralOrWord c cs).1.token.reference?.any seemsProse := by
  rcases Lexeme.numeralOrWord_cases c cs with hcases | ⟨hstart, hcases⟩ | hcases
  · rw [hcases, holdsProse_takeNumeral]
    unfold Token.ofNumeral
    split <;> rfl
  · rw [hcases] at h ⊢
    have hchars : ∀ d ∈ c :: cs.takeWhile Formula.isWordChar, Formula.isWordChar d = true := by
      refine List.forall_mem_cons.mpr ⟨?_, fun d hd => List.mem_takeWhile_imp hd⟩
      rcases Bool.or_eq_true_iff.mp hstart with halpha | hc
      · simp [Formula.isWordChar, Char.isAlphanum, halpha]
      · simp [Formula.isWordChar, of_decide_eq_true hc]
    generalize c :: cs.takeWhile Formula.isWordChar = w at h hchars ⊢
    generalize cs.dropWhile Formula.isWordChar = rest at h ⊢
    -- A known word is the name of a function, and those are struck.
    have hfunction : (Token.word (String.ofList w)).Known → holdsProse w = false := by
      rintro ⟨f, hf⟩
      exact holdsProse_functionName hchars (by simpa using hf)
    unfold Token.ofWord at h ⊢
    dsimp only at h ⊢
    split at h
    · next hopens =>
      rw [if_pos hopens]
      exact hfunction h
    · next hopens =>
      rw [if_neg hopens]
      cases hr : Reference.ofChars? w with
      | some r => exact holdsProse_reference hr
      | none =>
        rw [hr] at h
        exact hfunction h
  · rw [hcases] at h
    cases h

theorem holdsProse_of_separated (h : Separated (tokens cs)) : holdsProse cs = (occurrences cs).any seemsProse := by
  rw [← holdsProse_trimFront]
  induction cs using Formula.lexemes.induct with
  | case1 cs hfront =>
    rw [hfront, occurrences, tokens, Formula.lexemes_eq_nil hfront, holdsProse_nil]
    rfl
  | case2 cs c rest hfront _ _ ih =>
    have htokens : tokens cs = (Lexeme.first c rest).1.token :: tokens (Lexeme.first c rest).2 := by
      rw [tokens, Formula.lexemes_eq_cons hfront, List.map_cons, tokens]
    have hrest : holdsProse (Lexeme.first c rest).2 = (occurrences (Lexeme.first c rest).2).any seemsProse := by
      rw [← holdsProse_trimFront]
      exact ih (htokens ▸ h).of_cons
    have hany : (occurrences cs).any seemsProse =
        ((Lexeme.first c rest).1.token.reference?.any seemsProse || (occurrences (Lexeme.first c rest).2).any seemsProse) := by
      rw [occurrences, htokens, List.filterMap_cons, occurrences]
      cases (Lexeme.first c rest).1.token.reference? with
      | none => rfl
      | some r => exact List.any_cons
    rw [hfront, hany, ← Lexeme.first_append c rest, ← hrest]
    -- Marks leave nothing. After an operand comes a blank or a mark, so what is struck in it does not reach
    -- past its end.
    rcases Lexeme.first_cases c rest with ⟨-, hmarks, hoperand⟩ | hfirst
    · have hnone := Formula.reference?_of_isOperand hoperand
      rw [holdsProse_others_append fun d hd => (divides_of_mem_marks (hmarks d hd)).1, hnone]
      rfl
    · have hknown : (Lexeme.numeralOrWord c rest).1.token.Known := by
        rw [← hfirst]
        exact h.known _ (by simp [htokens])
      have hoperand := hfirst ▸ Lexeme.isOperand_numeralOrWord hknown
      have hends : ∀ d ∈ (Lexeme.first c rest).2.head?, Divides d := by
        intro d hd
        rcases h.head_rest hfront hoperand d hd with hblank | hmark
        · exact divides_of_isBlank hblank
        · exact divides_of_mem_marks hmark
      rw [holdsProse_append hends, hfirst, holdsProse_lexeme hknown]

theorem looksLikeFormula_of_parse (he : parse cs = .ok e) : looksLikeFormula cs = !e.references.any seemsProse := by
  rw [looksLikeFormula_eq, ← holdsProse_body, holdsProse_of_separated (Formula.derives_of_parse he).separated,
    Formula.occurrences_body, Formula.references_eq_occurrences he]

/-! ### Errors -/

/-- A conversion fails at a part of the expression, if at all: one without a formula or without a row. -/
def FailsInPart {β : Type} (x : Except ExportError β) : Prop :=
  ∀ error, x = .error error → (∃ o, error = .unconvertible o) ∨ ∃ r, error = .noRow r

theorem failsInPart_convertExpr (s : Surroundings) (e : Expr) (position : Nat) : FailsInPart (convertExpr s e position) := by
  intro error herror
  refine (failsAt_convertExpr (List.Subset.refl _) position error herror).imp_right ?_
  rintro ⟨r, -, -, hr⟩
  exact ⟨r, hr⟩

/-! ### Refusals -/

/-- A formula is refused for prose, by the probe and in every month on every sheet, exactly if it refers to a
    time constant whose name seems to be prose. All others have a cell in every column if one conversion
    far to the right succeeds. -/
theorem refused_iff_of_parse (he : parse cs = .ok e) :
    (looksLikeFormula cs = false ↔ ∃ r ∈ e.references, seemsProse r = true) ∧
      (∀ l p, (∃ text, convert cs l p = .error (.prose text)) ↔ ∃ r ∈ e.references, seemsProse r = true) ∧
      (canConvert cs = true ↔ (∀ r ∈ e.references, seemsProse r = false) ∧ convertsEverywhere e = true) := by
  have hlooks := looksLikeFormula_of_parse he
  have hrefused : looksLikeFormula cs = false ↔ ∃ r ∈ e.references, seemsProse r = true := by
    rw [hlooks, Bool.not_eq_false', List.any_eq_true]
  refine ⟨hrefused, fun l p => ?_, ?_⟩
  · rw [← hrefused]
    cases h : looksLikeFormula cs with
    | true =>
      rw [convert_of_parse he h]
      refine iff_of_false ?_ nofun
      rintro ⟨text, hconvert⟩
      rcases failsInPart_convertExpr _ _ _ _ hconvert with ⟨o, ho⟩ | ⟨r, hr⟩
      · cases ho
      · cases hr
    | false =>
      refine iff_of_true ⟨String.ofList (Text.trim cs), ?_⟩ rfl
      rw [convert, Formula.isBlankFormula_of_parse he, h]
      rfl
  · rw [canConvert_iff_of_parse he, ← convertsEverywhere_iff, hlooks, Bool.not_eq_true', List.any_eq_false]
    simp only [Bool.not_eq_true]

def mixed : Expr :=
  .binary .power (.call .max [.reference ⟨.input, [1, 2], none, none⟩, .reference (.timeConstant "DiM")])
    (.reference ⟨.flag, [3], none, some .start⟩)

theorem parse_mixed : parse "=Max(V1.2,T.DiM)^F3.Start".toList = .ok mixed := by
  cbv

theorem refused_iff_of_parse_mixed :
    let cs := "=Max(V1.2,T.DiM)^F3.Start".toList
    parse cs = .ok mixed ∧ looksLikeFormula cs = true ∧ (∀ l p text, convert cs l p ≠ .error (.prose text)) ∧
      canConvert cs = true := by
  have hnone : ¬ ∃ r ∈ mixed.references, seemsProse r = true := by decide
  have hconverts : convertsEverywhere mixed = true := by
    simp only [convertsEverywhere, mixed, convertExpr, convertAll]
    rfl
  obtain ⟨hlooks, hconvert, hcan⟩ := refused_iff_of_parse parse_mixed
  refine ⟨parse_mixed, ?_, fun l p text h => hnone ((hconvert l p).mp ⟨text, h⟩), hcan.mpr ⟨by decide, hconverts⟩⟩
  exact Bool.not_eq_false _ ▸ fun h => hnone (hlooks.mp h)

/-- A time constant of one month, under a name that ends in a digit. -/
def rated : Context Float :=
  ⟨.consecutive ⟨24300⟩ 1, (SeriesMap.empty 1).bind (.timeConstant "Rate2") [1] rfl, fun _ => none⟩

theorem parse_rate : parse "T.Rate2".toList = .ok (.reference (.timeConstant "Rate2")) := by
  cbv

/-- The evaluator runs the formula, which is refused for prose. -/
theorem refused_rate :
    let cs := "T.Rate2".toList
    parse cs = .ok (.reference (.timeConstant "Rate2")) ∧ evaluateText rated cs = ⟨[1], none⟩ ∧
      looksLikeFormula cs = false ∧ (∀ l p, convert cs l p = .error (.prose "T.Rate2")) ∧ canConvert cs = false := by
  have hlooks : looksLikeFormula "T.Rate2".toList = false := by
    rw [looksLikeFormula_of_parse parse_rate]
    decide
  have hresolve : rated.resolve (.timeConstant "Rate2") = .ok [1] := by
    have hbound : rated.bound? (.timeConstant "Rate2") = some [1] :=
      (SeriesMap.get?_bind (SeriesMap.empty 1) _ [1] rfl _).trans (if_pos rfl)
    rw [Context.resolve, hbound]
    rfl
  refine ⟨parse_rate, ?_, hlooks, fun l p => ?_, ?_⟩
  · rw [Formula.evaluateText_of_parse parse_rate, Formula.evaluate, hresolve]
    rfl
  · rw [convert, Formula.isBlankFormula_of_parse parse_rate, hlooks]
    rfl
  · rw [canConvert, Formula.isBlankFormula_of_parse parse_rate, hlooks]
    rfl

end MonthlyModel.Sheet
