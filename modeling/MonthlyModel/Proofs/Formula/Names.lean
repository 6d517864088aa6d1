import Mathlib
import MonthlyModel.Formula.Names
import MonthlyModel.Proofs.Formula.Grammar

/-! References named by a text and references of the formula that it writes.

The names are read off the raw text, the formula off a text without blanks at its ends and without
its leading equals sign. Neither makes a difference to the references. -/

namespace MonthlyModel

/-! ### Blanks at the end of a text -/

namespace Text

theorem ne_of_isBlank {c d : Char} (h : isBlank c = true) (hd : isBlank d = false) : c ≠ d := by
  rintro rfl
  exact absurd h (by rw [hd]; decide)

theorem isDigit_of_isBlank {c : Char} (h : isBlank c = true) : Decimal.isDigit c = false := by
  simp only [isBlank, Bool.or_eq_true, Bool.and_eq_true, decide_eq_true_eq, beq_iff_eq] at h
  simp only [Decimal.isDigit, Bool.and_eq_false_iff, decide_eq_false_iff_not]
  omega

theorem isWordChar_of_isBlank {c : Char} (h : isBlank c = true) : Formula.isWordChar c = false := by
  have hu := ne_of_isBlank (d := '_') h (by decide)
  have hp := ne_of_isBlank (d := '.') h (by decide)
  have hn : c.val.toNat = c.toNat := rfl
  simp only [isBlank, Bool.or_eq_true, Bool.and_eq_true, decide_eq_true_eq, beq_iff_eq] at h
  simp [Formula.isWordChar, hu, hp, Char.isAlphanum, Char.isAlpha, Char.isUpper, Char.isLower, Char.isDigit,
    UInt32.le_iff_toNat_le]
  omega

theorem dropWhile_append {p : Char → Bool} {bs : List Char} (hb : ∀ b ∈ bs, p b = false) (cs : List Char) :
    (cs ++ bs).dropWhile p = cs.dropWhile p ++ bs := by
  have hbs : bs.dropWhile p = bs := by
    cases bs with
    | nil => rfl
    | cons b bs => rw [List.dropWhile_cons_of_neg (by simp [hb b List.mem_cons_self])]
  rw [List.dropWhile_append, hbs]
  split
  · next h => rw [List.isEmpty_iff.mp h, List.nil_append]
  · rfl

theorem takeWhile_append {p : Char → Bool} {bs : List Char} (hb : ∀ b ∈ bs, p b = false) (cs : List Char) :
    (cs ++ bs).takeWhile p = cs.takeWhile p := by
  refine (List.append_left_inj (cs.dropWhile p ++ bs)).mp ?_
  rw [← dropWhile_append hb, List.takeWhile_append_dropWhile, dropWhile_append hb, ← List.append_assoc,
    List.takeWhile_append_dropWhile]

theorem exists_trim_append (cs : List Char) :
    ∃ bs, trimFront cs = trim cs ++ bs ∧ ∀ b ∈ bs, isBlank b = true := by
  refine ⟨((trimFront cs).reverse.takeWhile isBlank).reverse, ?_, fun b hb => ?_⟩
  · unfold trim
    rw [← List.reverse_append]
    generalize (trimFront cs) = ds
    rw [trimFront, List.takeWhile_append_dropWhile, List.reverse_reverse]
  · exact List.mem_takeWhile_imp (List.mem_reverse.mp hb)

end Text

/-! ### Numerals before blanks -/

namespace Decimal

variable {bs : List Char} (hb : ∀ b ∈ bs, Text.isBlank b = true)
include hb

theorem takePlaces_append_blanks (cs : List Char) :
    takePlaces (cs ++ bs) = ((takePlaces cs).1, (takePlaces cs).2 ++ bs) := by
  have hd : ∀ b ∈ bs, isDigit b = false := fun b h => Text.isDigit_of_isBlank (hb b h)
  cases cs with
  | nil =>
    cases bs with
    | nil => rfl
    | cons b bs =>
      have := Text.ne_of_isBlank (d := '.') (hb b List.mem_cons_self) (by decide)
      simp [takePlaces, this]
  | cons c cs =>
    by_cases hc : c = '.'
    · subst hc
      simp [takePlaces, Text.takeWhile_append hd, Text.dropWhile_append hd]
    · simp [takePlaces, hc]

theorem takeExponent_append_blanks (cs : List Char) :
    takeExponent (cs ++ bs) = ((takeExponent cs).1, (takeExponent cs).2 ++ bs) := by
  have hd : ∀ b ∈ bs, isDigit b = false := fun b h => Text.isDigit_of_isBlank (hb b h)
  match cs with
  | [] =>
    match bs with
    | [] => rfl
    | [b] => rfl
    | b :: b' :: bs =>
      have he := Text.ne_of_isBlank (d := 'e') (hb b List.mem_cons_self) (by decide)
      have hE := Text.ne_of_isBlank (d := 'E') (hb b List.mem_cons_self) (by decide)
      simp [takeExponent, he, hE]
  | [e] =>
    match bs with
    | [] => rfl
    | b :: bs =>
      have hp := Text.ne_of_isBlank (d := '+') (hb b List.mem_cons_self) (by decide)
      have hm := Text.ne_of_isBlank (d := '-') (hb b List.mem_cons_self) (by decide)
      simp [takeExponent, hp, hm, hd]
  | e :: s :: cs =>
    have hh : (cs ++ bs).head?.any isDigit = cs.head?.any isDigit := by
      cases cs <;> cases bs <;> simp [hd]
    simp only [takeExponent, List.cons_append, hh, Text.takeWhile_append hd, Text.dropWhile_append hd]
    split <;> rfl

theorem takeNumeral_append_blanks (cs : List Char) :
    takeNumeral (cs ++ bs) = ((takeNumeral cs).1, (takeNumeral cs).2 ++ bs) := by
  have hd : ∀ b ∈ bs, isDigit b = false := fun b h => Text.isDigit_of_isBlank (hb b h)
  simp only [takeNumeral, Text.takeWhile_append hd, Text.dropWhile_append hd, takePlaces_append_blanks hb,
    takeExponent_append_blanks hb]

end Decimal

namespace Formula

/-! ### Tokens before blanks -/

theorem lexemes_eq_nil {cs : List Char} (h : Text.trimFront cs = []) : lexemes cs = [] := by
  rw [lexemes]
  split
  · rfl
  · next h' => rw [h] at h'; cases h'

theorem lexemes_eq_cons {cs rest : List Char} {c : Char} (h : Text.trimFront cs = c :: rest) :
    lexemes cs = (Lexeme.first c rest).1 :: lexemes (Lexeme.first c rest).2 := by
  rw [lexemes]
  split
  · next h' => rw [h] at h'; cases h'
  · next h' =>
    rw [h] at h'
    cases h'
    rfl

theorem lexemes_trimFront (cs : List Char) : lexemes (Text.trimFront cs) = lexemes cs := by
  have hi : Text.trimFront (Text.trimFront cs) = Text.trimFront cs := by
    unfold Text.trimFront
    exact List.dropWhile_eq_self_iff.mpr (List.dropWhile_get_zero_not _ cs)
  cases h : Text.trimFront cs with
  | nil => rw [lexemes_eq_nil h, lexemes_eq_nil rfl]
  | cons c rest => rw [lexemes_eq_cons h, lexemes_eq_cons (h ▸ hi)]

section
variable {bs : List Char} (hb : ∀ b ∈ bs, Text.isBlank b = true)
include hb

theorem trimFront_append_blanks {cs : List Char} :
    Text.trimFront (cs ++ bs) = if Text.trimFront cs = [] then [] else Text.trimFront cs ++ bs := by
  rw [Text.trimFront, List.dropWhile_append, List.dropWhile_eq_nil_iff.mpr hb]
  simp only [List.isEmpty_iff]
  rfl

theorem opensBracket_append_blanks (cs : List Char) : opensBracket (cs ++ bs) = opensBracket cs := by
  rw [opensBracket, trimFront_append_blanks hb, opensBracket]
  cases Text.trimFront cs with
  | nil => rfl
  | cons c rest => rfl

theorem Lexeme.orEqual_append_blanks (short long : Operator) (c : Char) (cs : List Char) :
    orEqual short long c (cs ++ bs) = ((orEqual short long c cs).1, (orEqual short long c cs).2 ++ bs) := by
  cases cs with
  | nil =>
    cases bs with
    | nil => rfl
    | cons b bs =>
      have := Text.ne_of_isBlank (d := '=') (hb b List.mem_cons_self) (by decide)
      simp [orEqual, this]
  | cons d cs =>
    by_cases hd : d = '='
    · subst hd
      rfl
    · simp [orEqual, hd]

theorem Lexeme.numeralOrWord_append_blanks (c : Char) (cs : List Char) :
    numeralOrWord c (cs ++ bs) = ((numeralOrWord c cs).1, (numeralOrWord c cs).2 ++ bs) := by
  have hs : startsNumeral c (cs ++ bs) = startsNumeral c cs := by
    have hd : ∀ b ∈ bs, Decimal.isDigit b = false := fun b h => Text.isDigit_of_isBlank (hb b h)
    unfold startsNumeral
    cases cs <;> cases bs <;> simp [hd]
  have hw : ∀ b ∈ bs, isWordChar b = false := fun b h => Text.isWordChar_of_isBlank (hb b h)
  have ho := opensBracket_append_blanks hb (cs.dropWhile isWordChar)
  unfold numeralOrWord
  rw [hs, ← List.cons_append, Decimal.takeNumeral_append_blanks hb, Text.takeWhile_append hw,
    Text.dropWhile_append hw]
  simp only [Token.ofWord, ho]
  split
  · rfl
  · split <;> rfl

theorem Lexeme.first_append_blanks (c : Char) (cs : List Char) :
    first c (cs ++ bs) = ((first c cs).1, (first c cs).2 ++ bs) := by
  unfold first
  split <;> first
    | rfl
    | exact orEqual_append_blanks hb ..
    | exact numeralOrWord_append_blanks hb ..

theorem lexemes_append_blanks (cs : List Char) : lexemes (cs ++ bs) = lexemes cs := by
  fun_induction lexemes cs with
  | case1 cs h => rw [lexemes_eq_nil (by rw [trimFront_append_blanks hb, if_pos h])]
  | case2 cs c rest h _ _ ih =>
    have hfront : Text.trimFront (cs ++ bs) = c :: (rest ++ bs) := by
      rw [trimFront_append_blanks hb, if_neg (by simp [h]), h, List.cons_append]
    rw [lexemes_eq_cons hfront, Lexeme.first_append_blanks hb, ih]

end

/-! ### The references of a formula -/

theorem tokens_trim (cs : List Char) : tokens (Text.trim cs) = tokens cs := by
  obtain ⟨bs, hbs, hb⟩ := Text.exists_trim_append cs
  rw [tokens, ← lexemes_append_blanks hb, ← hbs, lexemes_trimFront, tokens]

/-- An equals sign in front makes no difference to what the other tokens of a text give. -/
theorem filterMap_tokens_equal {α : Type} {f : Token → Option α} (hf : f (.operator .equal) = none) (cs : List Char) :
    (tokens ('=' :: cs)).filterMap f = (tokens cs).filterMap f := by
  induction hn : cs.length using Nat.strong_induction_on generalizing cs with
  | _ n ih =>
    rw [tokens, lexemes_eq_cons (show Text.trimFront ('=' :: cs) = '=' :: cs from rfl), List.map_cons]
    cases cs with
    | nil => exact List.filterMap_cons_none hf
    | cons c rest =>
      by_cases hc : c = '='
      · -- Two equals signs are one operator, so it is the second one that has to be dropped.
        subst hc
        rw [ih rest.length (by simp [← hn]) rest rfl]
        exact List.filterMap_cons_none hf
      · have hfirst : Lexeme.first '=' (c :: rest) = (⟨.operator .equal, ['=']⟩, c :: rest) := by
          simp [Lexeme.first, Lexeme.orEqual, hc]
        rw [hfirst]
        exact List.filterMap_cons_none hf

theorem filterMap_tokens_body {α : Type} {f : Token → Option α} (hf : f (.operator .equal) = none) (cs : List Char) :
    (tokens (body cs)).filterMap f = (tokens cs).filterMap f := by
  rw [← tokens_trim cs]
  unfold body
  split
  · next rest h => rw [h, filterMap_tokens_equal hf]
  · rfl

/-- The blanks at the ends of a text and an equals sign in front make no difference to its references. -/
theorem occurrences_body (cs : List Char) : occurrences (body cs) = occurrences cs :=
  filterMap_tokens_body rfl cs

/-- A formula refers to what its text names, in the same order. -/
theorem references_eq_occurrences {cs : List Char} {e : Expr} (h : parse cs = .ok e) :
    e.references = occurrences cs := by
  rw [(derives_of_parse h).references, ← occurrences_body cs, occurrences]

/-! ### Words that are references -/

/-- A reference among the tokens of a text is written by one of its words. -/
theorem Token.exists_of_ofWord {r : Reference} {word rest : List Char} (h : ofWord word rest = .reference r) :
    Reference.ofChars? word = some r := by
  unfold ofWord at h
  split at h
  · cases h
  · split at h
    · next hr =>
      cases h
      exact hr
    · cases h

theorem Token.ofNumeral_ne_reference (r : Reference) (numeral : List Char) : ofNumeral numeral ≠ .reference r := by
  unfold ofNumeral
  split <;> nofun

theorem Token.reference?_eq_some_iff {t : Token} {r : Reference} : t.reference? = some r ↔ t = .reference r := by
  cases t <;> simp [reference?]

theorem Lexeme.exists_of_first {r : Reference} {c : Char} {cs : List Char} (h : (first c cs).1.token = .reference r) :
    ∃ word, Reference.ofChars? word = some r := by
  have horEqual (short long : Operator) : (orEqual short long c cs).1.token ≠ .reference r := by
    unfold orEqual
    split <;> nofun
  unfold first at h
  split at h
  case h_12 =>
    unfold numeralOrWord at h
    split at h
    · exact absurd h (Token.ofNumeral_ne_reference r _)
    · split at h
      · exact ⟨_, Token.exists_of_ofWord h⟩
      · cases h
  all_goals first | cases h | exact absurd h (horEqual _ _)

/-- Every token of a text is that of the lexeme at the front of some text. -/
theorem exists_first_of_mem_tokens {t : Token} {cs : List Char} (h : t ∈ tokens cs) :
    ∃ c rest, (Lexeme.first c rest).1.token = t := by
  unfold tokens at h
  fun_induction lexemes cs with
  | case1 => cases h
  | case2 cs c rest _ _ _ ih =>
    rcases List.mem_cons.mp h with rfl | h
    · exact ⟨c, rest, rfl⟩
    · exact ih h

theorem exists_of_mem_occurrences {r : Reference} {cs : List Char} (h : r ∈ occurrences cs) :
    ∃ word, Reference.ofChars? word = some r := by
  obtain ⟨t, ht, hr⟩ := List.mem_filterMap.mp h
  obtain ⟨c, rest, rfl⟩ := exists_first_of_mem_tokens ht
  exact Lexeme.exists_of_first (Token.reference?_eq_some_iff.mp hr)

/-! ### The names of a text -/

theorem mem_namedReferences {cs : List Char} {r : Reference} :
    r ∈ namedReferences cs ↔ r ∈ occurrences cs := by
  rw [namedReferences, Std.TreeSet.mem_toList, Std.TreeSet.mem_ofList, List.contains_iff_mem]

/-- The calculations that a text names are those that its references stand for. -/
theorem mem_namedCalculations {cs : List Char} {id : CalculationId} :
    id ∈ namedCalculations cs ↔ ∃ r ∈ namedReferences cs, r.calculation? = some id := by
  rw [namedCalculations, List.mem_filterMap]

theorem mem_namedReferences_of_mem_references {cs : List Char} {e : Expr} {r : Reference}
    (h : parse cs = .ok e) (hr : r ∈ e.references) : r ∈ namedReferences cs := by
  rwa [mem_namedReferences, ← references_eq_occurrences h]

end Formula

end MonthlyModel
