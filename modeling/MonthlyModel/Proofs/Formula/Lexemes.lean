import MonthlyModel.Proofs.Formula.Separation

/-! How a text is cut into lexemes.

Taking lexemes from the front of a text comes to an end, at the latest after as many of them as there are
characters. Nothing but blanks is lost on the way. A word is as long as it can be, so that none of its beginnings
is taken for a reference. -/

namespace MonthlyModel

/-! ### Numerals that are taken can be read -/

namespace Decimal

theorem span_isDigit_append {ds rest : List Char} (hds : ∀ d ∈ ds, isDigit d = true)
    (hrest : ∀ c ∈ rest.head?, isDigit c = false) : (ds ++ rest).span isDigit = (ds, rest) := by
  have htake : rest.takeWhile isDigit = [] := by
    cases rest with
    | nil => rfl
    | cons c rest => rw [List.takeWhile_cons_of_neg (by simp [hrest c rfl])]
  have hdrop : rest.dropWhile isDigit = rest := by
    cases rest with
    | nil => rfl
    | cons c rest => rw [List.dropWhile_cons_of_neg (by simp [hrest c rfl])]
  rw [List.span_eq_takeWhile_dropWhile, List.takeWhile_append_of_pos hds, List.dropWhile_append_of_pos hds, htake,
    hdrop, List.append_nil]

theorem isSome_exponent? {s : Char} {ds : List Char} (hds : ∀ d ∈ ds, isDigit d = true)
    (hs : isDigit s = true ∨ (s = '+' ∨ s = '-') ∧ ds ≠ []) : (exponent? (s :: ds)).isSome = true := by
  rcases hs with hs | ⟨rfl | rfl, hne⟩
  · have hplus : s ≠ '+' := by rintro rfl; cases hs
    have hminus : s ≠ '-' := by rintro rfl; cases hs
    simpa [exponent?, hplus, hminus, hs] using hds
  · simpa [exponent?, hne] using hds
  · simpa [exponent?, hne] using hds

/-- What is taken for an exponent is one, with its letter, or nothing at all. -/
theorem takeExponent_cases (cs : List Char) : (takeExponent cs).1 = [] ∨
    ∃ e tail, (takeExponent cs).1 = e :: tail ∧ (e = 'e' ∨ e = 'E') ∧ (exponent? tail).isSome = true := by
  unfold takeExponent
  split
  · next e s cs =>
    split
    · next h =>
      simp only [Bool.and_eq_true, Bool.or_eq_true, decide_eq_true_eq] at h
      refine .inr ⟨e, _, rfl, h.1, isSome_exponent? (fun d hd => List.mem_takeWhile_imp hd) (h.2.imp_right fun h => ?_)⟩
      refine ⟨h.1, ?_⟩
      cases cs with
      | nil => simp at h
      | cons d cs =>
        have hd : isDigit d = true := by simpa using h.2
        simp [hd]
    · exact .inl rfl
  · exact .inl rfl

/-- A numeral is digits with a point, at least one digit among them, and maybe an exponent. -/
theorem isSome_numeral? {front places exponent : List Char} (hfront : ∀ c ∈ front, isDigit c = true)
    (hplaces : places = [] ∧ front ≠ [] ∨
      ∃ ds, places = '.' :: ds ∧ (∀ d ∈ ds, isDigit d = true) ∧ ¬ (front = [] ∧ ds = []))
    (hexponent : exponent = [] ∨
      ∃ e tail, exponent = e :: tail ∧ (e = 'e' ∨ e = 'E') ∧ (exponent? tail).isSome = true) :
    (numeral? (front ++ places ++ exponent)).isSome = true := by
  have hletter : ∀ c ∈ exponent.head?, isDigit c = false := by
    rcases hexponent with rfl | ⟨e, tail, rfl, rfl | rfl, -⟩ <;> simp [isDigit]
  rw [List.append_assoc]
  unfold numeral?
  rcases hplaces with ⟨rfl, hne⟩ | ⟨ds, rfl, hds, hne⟩
  · rw [List.nil_append, span_isDigit_append hfront hletter]
    rcases hexponent with rfl | ⟨e, tail, rfl, rfl | rfl, htail⟩
    · simp [hne]
    · simp [hne, htail]
    · simp [hne, htail]
  · have hpoint : ∀ c ∈ ('.' :: (ds ++ exponent)).head?, isDigit c = false := by simp [isDigit]
    simp only [List.cons_append, span_isDigit_append hfront hpoint, span_isDigit_append hds hletter]
    rcases hexponent with rfl | ⟨e, tail, rfl, rfl | rfl, htail⟩
    · simpa using hne
    · simp [if_neg hne, htail]
    · simp [if_neg hne, htail]

theorem isSome_numeral?_takeNumeral {c : Char} {cs : List Char} (h : Formula.startsNumeral c cs = true) :
    (numeral? (takeNumeral (c :: cs)).1).isSome = true := by
  refine isSome_numeral? (fun d hd => List.mem_takeWhile_imp hd) ?_ (takeExponent_cases _)
  simp only [Formula.startsNumeral, Bool.or_eq_true, Bool.and_eq_true, decide_eq_true_eq] at h
  rcases h with hc | ⟨rfl, hcs⟩
  · have hfront : (c :: cs).takeWhile isDigit ≠ [] := by simp [hc]
    unfold takePlaces
    split
    · exact .inr ⟨_, rfl, fun d hd => List.mem_takeWhile_imp hd, fun h => hfront h.1⟩
    · exact .inl ⟨rfl, hfront⟩
  · have hpoint : ('.' :: cs).dropWhile isDigit = '.' :: cs := List.dropWhile_cons_of_neg (by decide)
    rw [hpoint]
    refine .inr ⟨_, rfl, fun d hd => List.mem_takeWhile_imp hd, fun h => absurd h.2 ?_⟩
    cases cs with
    | nil => cases hcs
    | cons d cs =>
      have hd : isDigit d = true := by simpa using hcs
      simp [hd]

end Decimal

namespace Formula

open Text (isBlank trimFront)

/-! ### Words -/

/-- References, names of functions and words that mean nothing. -/
def Token.isWord : Token → Bool
  | .reference _ | .word _ => true
  | _ => false

/-- The longest run of word characters at the front of a text: no longer one begins the text. -/
structure LongestRun (run text : List Char) : Prop where
  begins : run <+: text
  chars : ∀ c ∈ run, isWordChar c = true
  longest : ∀ run', run' <+: text → (∀ c ∈ run', isWordChar c = true) → run' <+: run

theorem longestRun_takeWhile (text : List Char) : LongestRun (text.takeWhile isWordChar) text where
  begins := List.takeWhile_prefix _
  chars _ hc := List.mem_takeWhile_imp hc
  longest run' hbegins hchars := by
    obtain ⟨rest, rfl⟩ := hbegins
    rw [List.takeWhile_append_of_pos hchars]
    exact List.prefix_append _ _

theorem isWordChar_of_startsWord {c : Char} (h : startsWord c = true) : isWordChar c = true := by
  simp only [startsWord, isWordChar, Char.isAlphanum, Bool.or_eq_true] at h ⊢
  tauto

theorem Token.isWord_eq_false_of_isOperand {t : Token} (h : t.isOperand = false) : t.isWord = false := by
  cases t with
  | reference | word => cases h
  | _ => rfl

theorem Token.isWord_ofNumeral {numeral : List Char} (h : (Decimal.numeral? numeral).isSome = true) :
    (ofNumeral numeral).isWord = false := by
  obtain ⟨x, hx⟩ := Option.isSome_iff_exists.mp h
  rw [ofNumeral, hx]
  rfl

namespace Lexeme

/-- A word is read from the longest run of word characters where it starts. -/
def Whole (l : Lexeme) (rest : List Char) : Prop :=
  l.token.isWord = true → l.token = .ofWord l.chars rest ∧ LongestRun l.chars (l.chars ++ rest)

theorem Whole.of_isWord_eq_false {l : Lexeme} {rest : List Char} (h : l.token.isWord = false) : l.Whole rest :=
  fun hword => absurd hword (by simp [h])

theorem whole_numeralOrWord (c : Char) (cs : List Char) : (numeralOrWord c cs).1.Whole (numeralOrWord c cs).2 := by
  unfold numeralOrWord
  split
  · -- A numeral would be a word if it could not be read.
    next hnumeral => exact .of_isWord_eq_false (Token.isWord_ofNumeral (Decimal.isSome_numeral?_takeNumeral hnumeral))
  · split
    · next hword =>
      have hrun : c :: cs.takeWhile isWordChar = (c :: cs).takeWhile isWordChar :=
        (List.takeWhile_cons_of_pos (isWordChar_of_startsWord hword)).symm
      have hchars : (c :: cs.takeWhile isWordChar) ++ cs.dropWhile isWordChar = c :: cs := by simp
      refine fun _ => ⟨rfl, ?_⟩
      rw [hchars, hrun]
      exact longestRun_takeWhile (c :: cs)
    · exact .of_isWord_eq_false rfl

theorem whole_first (c : Char) (cs : List Char) : (first c cs).1.Whole (first c cs).2 := by
  rcases first_cases c cs with ⟨-, -, hoperand⟩ | hfirst
  · exact .of_isWord_eq_false (Token.isWord_eq_false_of_isOperand hoperand)
  · rw [hfirst]
    exact whole_numeralOrWord c cs

end Lexeme

/-! ### The lexemes of a text -/

/-- The lexeme that a text goes on with, and what is left after it; none at the end of the text. -/
def next? (cs : List Char) : Option (Lexeme × List Char) :=
  match trimFront cs with
  | [] => none
  | c :: rest => some (Lexeme.first c rest)

/-- Lexemes that are taken from a text one after the other, until there is none. Each takes some characters, and
whole words; there are only blanks between them. -/
inductive Cut : List Char → List Lexeme → Prop where
  | done {gap : List Char} (hgap : ∀ b ∈ gap, isBlank b = true) (hnext : next? gap = none) : Cut gap []
  | take {gap rest : List Char} {l : Lexeme} {ls : List Lexeme} (hgap : ∀ b ∈ gap, isBlank b = true)
    (hnext : next? (gap ++ l.chars ++ rest) = some (l, rest)) (hchars : l.chars ≠ []) (hwhole : l.Whole rest)
    (hrest : Cut rest ls) : Cut (gap ++ l.chars ++ rest) (l :: ls)

theorem Cut.length_le {cs : List Char} {ls : List Lexeme} (h : Cut cs ls) : ls.length ≤ cs.length := by
  induction h with
  | done => exact Nat.zero_le _
  | take _ _ hchars _ _ ih =>
    have hpos := List.length_pos_iff.mpr hchars
    rw [List.length_append, List.length_append, List.length_cons]
    omega

theorem cut_lexemes (cs : List Char) : Cut cs (lexemes cs) := by
  have hgap (cs : List Char) : ∀ b ∈ cs.takeWhile isBlank, isBlank b = true := fun b hb => List.mem_takeWhile_imp hb
  have hsplit (cs : List Char) : cs.takeWhile isBlank ++ trimFront cs = cs := List.takeWhile_append_dropWhile
  fun_induction lexemes cs with
  | case1 cs hfront =>
    have hblank := hgap cs
    rw [← List.append_nil (cs.takeWhile isBlank), ← hfront, hsplit] at hblank
    exact .done hblank (by rw [next?, hfront])
  | case2 cs c rest hfront _ _ ih =>
    have hcs : cs = cs.takeWhile isBlank ++ (Lexeme.first c rest).1.chars ++ (Lexeme.first c rest).2 := by
      rw [List.append_assoc, Lexeme.first_append, ← hfront, hsplit]
    rw [hcs]
    refine .take (hgap cs) ?_ (Lexeme.chars_first_ne_nil c rest) (Lexeme.whole_first c rest) ih
    rw [← hcs, next?, hfront]

/-- The characters of lexemes with what stands before each of them make up the text, up to the blanks at its
end. -/
theorem Cut.exists_gaps {cs : List Char} {ls : List Lexeme} (h : Cut cs ls) : ∃ gaps last, gaps.length = ls.length ∧
    (∀ gap ∈ last :: gaps, ∀ b ∈ gap, isBlank b = true) ∧
    cs = (List.zipWith (fun gap l => gap ++ l.chars) gaps ls).flatten ++ last := by
  induction h with
  | @done gap hgap => exact ⟨[], gap, rfl, by simpa using hgap, by simp⟩
  | @take gap rest l ls hgap _ _ _ _ ih =>
    obtain ⟨gaps, last, hlength, hblank, rfl⟩ := ih
    refine ⟨gap :: gaps, last, by simp [hlength], ?_, by simp⟩
    rw [List.forall_mem_cons, List.forall_mem_cons] at *
    exact ⟨hblank.1, hgap, hblank.2⟩

/-- Taking lexemes from a text comes to its end, at the latest after as many as it has characters. Each has some
characters, those of all of them make up the text with blanks between them, and a reference or another word is read
from the longest run of word characters where it starts. -/
theorem cut_lexemes_words (cs : List Char) :
    Cut cs (lexemes cs) ∧ (lexemes cs).length ≤ cs.length ∧
      ∃ gaps last, gaps.length = (lexemes cs).length ∧ (∀ gap ∈ last :: gaps, ∀ b ∈ gap, isBlank b = true) ∧
        cs = (List.zipWith (fun gap l => gap ++ l.chars) gaps (lexemes cs)).flatten ++ last := by
  have hcut : Cut cs (lexemes cs) := cut_lexemes cs
  exact ⟨hcut, hcut.length_le, hcut.exists_gaps⟩

/-- Neither `R1` nor `C1.1` is cut off here. -/
example : (lexemes "R10 +C1.10 ".toList).map (String.ofList ·.chars) = ["R10", "+", "C1.10"] := by
  cbv

end Formula

end MonthlyModel
