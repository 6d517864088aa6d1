import Mathlib.Data.List.Basic
import MonthlyModel.Decimal.Digits
import MonthlyModel.Text
import MonthlyModel.Text.Word

/-! Words and pieces of texts.

Of the ASCII characters letters, digits and the underscore stand in words. A text is cut into the pieces
of its parts wherever no word goes on from one part to the next. -/

namespace MonthlyModel.Text

variable {c : Char} {cs us vs w : List Char} {ps qs : List Piece}

/-! ### Characters -/

theorem isWordChar_of_lt (h : c.toNat < 128) : isWordChar c = (c.isAlphanum || c = '_') := by
  have htable : ∀ n < 128, isWordChar (Char.ofNat n) = ((Char.ofNat n).isAlphanum || Char.ofNat n = '_') := by
    decide +kernel
  simpa using htable c.toNat h

theorem isDecimalDigit_of_lt (h : c.toNat < 128) : isDecimalDigit c = Decimal.isDigit c := by
  have htable : ∀ n < 128, isDecimalDigit (Char.ofNat n) = Decimal.isDigit (Char.ofNat n) := by decide +kernel
  simpa using htable c.toNat h

theorem fold_of_lt (h : c.toNat < 128) : fold c = c.toUpper := by
  have htable : ∀ n < 128, fold (Char.ofNat n) = (Char.ofNat n).toUpper := by decide +kernel
  simpa using htable c.toNat h

theorem upper_of_lt (h : c.toNat < 128) : upper c = [c.toUpper] := by
  have htable : ∀ n < 128, upper (Char.ofNat n) = [(Char.ofNat n).toUpper] := by decide +kernel
  simpa using htable c.toNat h

theorem upperText_of_lt (h : ∀ c ∈ cs, c.toNat < 128) : upperText cs = cs.map Char.toUpper := by
  induction cs with
  | nil => rfl
  | cons c cs ih =>
    obtain ⟨hc, hcs⟩ := List.forall_mem_cons.mp h
    have ih : cs.flatMap upper = cs.map Char.toUpper := ih hcs
    rw [upperText, List.flatMap_cons, upper_of_lt hc, ih, List.singleton_append, List.map_cons]

theorem isWordChar_of_blank (h : isBlank c = true) : isWordChar c = false := by
  have htable : ∀ n ∈ [9, 10, 11, 12, 13, 0x20, 0x85, 0xA0, 0x1680, 0x2000, 0x2001, 0x2002, 0x2003, 0x2004, 0x2005,
      0x2006, 0x2007, 0x2008, 0x2009, 0x200A, 0x2028, 0x2029, 0x202F, 0x205F, 0x3000],
      inRanges n wordRanges = false := by
    decide +kernel
  refine htable c.toNat ?_
  simp only [isBlank, Bool.or_eq_true, Bool.and_eq_true, decide_eq_true_eq, beq_iff_eq] at h
  simp only [List.mem_cons, List.not_mem_nil, or_false]
  omega

/-! ### Pieces -/

theorem Piece.cons_of_not (h : isWordChar c = false) (ps : List Piece) : Piece.cons c ps = .other c :: ps := by
  unfold Piece.cons
  rw [h, if_neg Bool.false_ne_true]

theorem pieces_cons_other (h : isWordChar c = false) : pieces (c :: cs) = .other c :: pieces cs := by
  rw [pieces, Piece.cons_of_not h]

theorem pieces_word (hne : w ≠ []) (h : ∀ c ∈ w, isWordChar c = true) : pieces w = [.word w] := by
  induction w with
  | nil => exact absurd rfl hne
  | cons c w ih =>
    obtain ⟨hc, hw⟩ := List.forall_mem_cons.mp h
    cases w with
    | nil => simp [pieces, Piece.cons, hc]
    | cons d w =>
      rw [pieces, ih (List.cons_ne_nil _ _) hw]
      exact if_pos hc

theorem Piece.cons_append (h : ∀ w, .word w ∉ qs.head?) : Piece.cons c (ps ++ qs) = Piece.cons c ps ++ qs := by
  unfold Piece.cons
  split
  · cases ps with
    | cons p ps => cases p <;> rfl
    | nil =>
      cases qs with
      | nil => rfl
      | cons q qs =>
        cases q with
        | word w => exact absurd rfl (h w)
        | other d => rfl
  · rfl

/-- A text is cut where its second part starts, if that is not inside of a word. -/
theorem pieces_append (h : ∀ v ∈ vs.head?, isWordChar v = false) : pieces (us ++ vs) = pieces us ++ pieces vs := by
  have hhead : ∀ w, .word w ∉ (pieces vs).head? := by
    cases vs with
    | nil => exact fun w hw => by cases hw
    | cons v vs =>
      rw [pieces_cons_other (h v rfl)]
      exact fun w hw => by cases hw
  induction us with
  | nil => rfl
  | cons u us ih => rw [List.cons_append, pieces, ih, Piece.cons_append hhead, pieces]

theorem infix_of_mem_pieces {p : Piece} (h : p ∈ pieces cs) : p.text <:+: cs := by
  obtain ⟨ps, qs, hps⟩ := List.append_of_mem h
  refine ⟨ps.flatMap Piece.text, qs.flatMap Piece.text, ?_⟩
  rw [← flatMap_text_pieces cs, hps]
  simp

end MonthlyModel.Text
