import Mathlib
import MonthlyModel.Proofs.Sheet.Column
import MonthlyModel.Proofs.Sheet.Spreadsheet
import MonthlyModel.Sheet.Conversion

/-! What a spreadsheet reads in the texts of cell formulas.

A text stands for a term in a place that asks for operators of some strength if it is read as the term
there, whatever follows that does not go on with it. Texts that stand for terms are put together from
texts that do, so brackets are where they are needed. -/

namespace MonthlyModel.Sheet

open MonthlyModel.Formula (Operator Function)

variable {home : String} {k : Nat} {x y rest : List Char} {t u : Term}

/-! ### What follows a term -/

/-- Nothing in a text goes on with a term before it, except for operators of at most some strength. -/
structure Follows (k : Nat) (rest : List Char) : Prop where
  head : ∀ c ∈ rest.head?, isNumeralChar c = false ∧ c ≠ ':'
  operator : ∀ o cs, takeOperator rest = some (o, cs) → o.strength ≤ k

theorem Follows.mono {j : Nat} (h : Follows k rest) (hk : k ≤ j) : Follows j rest :=
  ⟨h.head, fun o cs ho => (h.operator o cs ho).trans hk⟩

theorem Follows.isDigit_eq_false (h : Follows k rest) {c : Char} (hc : c ∈ rest.head?) : Decimal.isDigit c = false :=
  (Bool.or_eq_false_iff.mp (h.head c hc).1).1

theorem follows_nil : Follows k [] :=
  ⟨by simp, by simp [takeOperator]⟩

theorem follows_close : Follows k (')' :: rest) :=
  ⟨by simp [isNumeralChar, Decimal.isDigit], by simp [takeOperator]⟩

theorem follows_comma : Follows k (',' :: rest) :=
  ⟨by simp [isNumeralChar, Decimal.isDigit], by simp [takeOperator]⟩

/-- A term starts with nothing that would go on with an operator or end a list. -/
def Starts (x : List Char) : Prop :=
  ∃ c cs, x = c :: cs ∧ c ≠ '=' ∧ c ≠ '>' ∧ c ≠ ')'

theorem Starts.append (h : Starts x) : Starts (x ++ y) := by
  obtain ⟨c, cs, rfl, hc⟩ := h
  exact ⟨c, cs ++ y, rfl, hc⟩

theorem Starts.length_pos (h : Starts x) : 0 < x.length := by
  obtain ⟨c, cs, rfl, -⟩ := h
  exact Nat.succ_pos _

theorem takeOperator_cellSymbol (o : Operator) (h : Starts x) :
    takeOperator (cellSymbol o ++ x) = some (o, x) := by
  obtain ⟨c, cs, rfl, heq, hgt, -⟩ := h
  cases o
  case less | greater => simp [cellSymbol, Operator.symbol, takeOperator, heq, hgt]
  all_goals rfl

theorem follows_cellSymbol (o : Operator) (hk : o.strength ≤ k) (h : Starts x) : Follows k (cellSymbol o ++ x) := by
  refine ⟨?_, fun o' cs ho => ?_⟩
  · cases o <;> simp [cellSymbol, Operator.symbol, isNumeralChar, Decimal.isDigit]
  · rw [takeOperator_cellSymbol o h] at ho
    cases ho
    exact hk

/-! ### Texts that stand for terms -/

/-- What a place that asks for operators of some strength makes of a term in front of a text. -/
def continued (home : String) (k : Nat) (t : Term) (rest : List Char) : Option (Term × List Char) :=
  if k < 5 then climb home k t rest else some (t, rest)

/-- A text stands for a term in places that ask for operators of some strength. -/
structure StandsFor (home : String) (k : Nat) (x : List Char) (t : Term) : Prop where
  starts : Starts x
  reads : ∀ rest, Follows k rest → readTerm home k (x ++ rest) = continued home k t rest

theorem climb_stop (h : ∀ o cs, takeOperator rest = some (o, cs) → o.strength ≠ k) :
    climb home k t rest = some (t, rest) := by
  rw [climb]
  split
  · next o cs ho => rw [if_neg (h o cs ho)]
  · rfl

theorem climb_operator {o : Operator} (ho : takeOperator rest = some (o, x ++ y)) (hx : 0 < x.length)
    (hr : readTerm home (o.strength + 1) (x ++ y) = some (u, y)) :
    climb home o.strength t rest = climb home o.strength (.binary o t u) y := by
  rw [climb]
  split
  · next o' cs ho' =>
    cases ho.symm.trans ho'
    rw [if_pos rfl, hr]
    exact if_pos (by simpa using hx)
  · next hn => cases ho.symm.trans hn

/-- What is read in a place for more tightly binding operators leaves the looser ones to be climbed. -/
theorem StandsFor.stop (h : StandsFor home (k + 1) x t) (hf : Follows k rest) :
    readTerm home (k + 1) (x ++ rest) = some (t, rest) := by
  rw [h.reads rest (hf.mono (Nat.le_succ k)), continued]
  split
  · exact climb_stop fun o cs ho => Nat.ne_of_lt (Nat.lt_succ_of_le (hf.operator o cs ho))
  · rfl

theorem readTerm_of_lt (hk : k < 5) (h : readTerm home (k + 1) (x ++ y) = some (t, y)) (hx : 0 < x.length) :
    readTerm home k (x ++ y) = climb home k t y := by
  rw [readTerm.eq_def, if_pos hk, h]
  exact if_pos (by simpa using hx)

theorem readTerm_minus :
    readTerm home 5 ('-' :: x) = (readTerm home 5 x).map fun (t, rest) => (.negate t, rest) := by
  rw [readTerm.eq_def, if_neg (by decide)]
  rfl

theorem readTerm_of_head_ne (h : x.head? ≠ some '-') : readTerm home 5 x = readAtom home x := by
  rw [readTerm.eq_def, if_neg (by decide)]
  split
  · exact absurd rfl h
  · rfl

theorem StandsFor.of_succ (h : StandsFor home (k + 1) x t) (hk : k < 5) : StandsFor home k x t := by
  refine ⟨h.starts, fun rest hf => ?_⟩
  rw [continued, if_pos hk]
  exact readTerm_of_lt hk (h.stop hf) h.starts.length_pos

theorem StandsFor.of_le {j : Nat} (h : StandsFor home j x t) (hk : k ≤ j) (hj : j ≤ 5) : StandsFor home k x t := by
  induction hk using Nat.decreasingInduction with
  | self => exact h
  | of_succ i hi ih => exact ih.of_succ (by omega)

/-- A text in front of one that cannot go on with it is read as a whole. -/
theorem StandsFor.whole (h : StandsFor home k x t) (hf : Follows k rest) (ho : takeOperator rest = none) :
    readTerm home k (x ++ rest) = some (t, rest) := by
  rw [h.reads rest hf, continued]
  split
  · exact climb_stop fun o cs h => by cases ho.symm.trans h
  · rfl

theorem StandsFor.binary (o : Operator) (hl : StandsFor home o.strength x t)
    (hr : StandsFor home (o.strength + 1) y u) :
    StandsFor home o.strength (x ++ cellSymbol o ++ y) (.binary o t u) := by
  have hstrength : o.strength < 5 := by cases o <;> decide
  refine ⟨?_, fun rest hf => ?_⟩
  · rw [List.append_assoc]
    exact hl.starts.append
  · rw [List.append_assoc, List.append_assoc, hl.reads _ (follows_cellSymbol o (Nat.le_refl _) hr.starts.append)]
    unfold continued
    rw [if_pos hstrength, if_pos hstrength]
    exact climb_operator (takeOperator_cellSymbol o hr.starts.append) hr.starts.length_pos (hr.stop hf)

theorem StandsFor.negate (h : StandsFor home 5 x t) : StandsFor home 5 ('-' :: x) (.negate t) := by
  refine ⟨⟨'-', x, rfl, by decide⟩, fun rest hf => ?_⟩
  rw [List.cons_append, readTerm_minus, h.reads rest hf]
  rfl

/-- What is read as a whole stands for a term everywhere. -/
theorem standsFor_atom (hx : Starts x) (hminus : x.head? ≠ some '-')
    (h : ∀ rest, Follows 5 rest → readAtom home (x ++ rest) = some (t, rest)) : StandsFor home 5 x t := by
  refine ⟨hx, fun rest hf => ?_⟩
  rw [readTerm_of_head_ne, h rest hf]
  · rfl
  · obtain ⟨c, cs, rfl, -⟩ := hx
    exact hminus

theorem StandsFor.brackets (h : StandsFor home 1 x t) : StandsFor home 5 ('(' :: x ++ [')']) t := by
  refine standsFor_atom ⟨'(', x ++ [')'], rfl, by decide⟩ (by simp) fun rest _ => ?_
  have hread : readTerm home 1 (x ++ ')' :: rest) = some (t, ')' :: rest) := h.whole follows_close rfl
  have happend : ('(' :: x ++ [')']) ++ rest = '(' :: (x ++ ')' :: rest) := by simp
  rw [happend, readAtom.eq_def]
  simp only [hread]

/-! ### Runs of characters -/

theorem takeWhile_append_of_head {p : Char → Bool} (hx : ∀ c ∈ x, p c = true) (hr : ∀ c ∈ rest.head?, p c = false) :
    (x ++ rest).takeWhile p = x := by
  rw [List.takeWhile_append_of_pos hx]
  cases rest with
  | nil => simp
  | cons c cs => simp [hr c rfl]

theorem dropWhile_append_of_head {p : Char → Bool} (hx : ∀ c ∈ x, p c = true) (hr : ∀ c ∈ rest.head?, p c = false) :
    (x ++ rest).dropWhile p = rest := by
  rw [List.dropWhile_append_of_pos hx]
  cases rest with
  | nil => simp
  | cons c cs => simp [hr c rfl]

theorem ne_of_isDigit {c d : Char} (hc : Decimal.isDigit c = true) (hd : Decimal.isDigit d = false) : c ≠ d := by
  rintro rfl
  cases hc.symm.trans hd

theorem ne_of_isAlpha {c d : Char} (hc : c.isAlpha = true) (hd : d.isAlpha = false) : c ≠ d := by
  rintro rfl
  cases hc.symm.trans hd

/-! ### Numerals -/

/-- The characters of a numeral without a sign. -/
structure Numeral (x : List Char) : Prop where
  head : ∃ c cs, x = c :: cs ∧ Decimal.isDigit c = true
  chars : ∀ c ∈ x, isNumeralChar c = true

theorem readAtom_of_isDigit {c : Char} (hc : Decimal.isDigit c = true) :
    readAtom home (c :: x) = some (.numeral ((c :: x).takeWhile isNumeralChar), (c :: x).dropWhile isNumeralChar) := by
  rw [readAtom.eq_def]
  split
  · next h => exact absurd (List.cons.inj h).1 (ne_of_isDigit hc rfl)
  · next h => exact absurd (List.cons.inj h).1 (ne_of_isDigit hc rfl)
  · next h => exact absurd (List.cons.inj h).1 (ne_of_isDigit hc rfl)
  · exact if_pos hc

theorem Numeral.standsFor (h : Numeral x) : StandsFor home 5 x (.numeral x) := by
  obtain ⟨c, cs, rfl, hc⟩ := h.head
  have hne {d : Char} (hd : Decimal.isDigit d = false) : c ≠ d := ne_of_isDigit hc hd
  refine standsFor_atom ⟨c, cs, rfl, hne rfl, hne rfl, hne rfl⟩ ?_ fun rest hf => ?_
  · simpa using hne rfl
  · have hr : ∀ d ∈ rest.head?, isNumeralChar d = false := fun d hd => (hf.head d hd).1
    have happend : c :: cs ++ rest = c :: (cs ++ rest) := rfl
    rw [happend, readAtom_of_isDigit hc, ← happend, takeWhile_append_of_head h.chars hr,
      dropWhile_append_of_head h.chars hr]

theorem numeral_digits (n : Nat) : Numeral (Decimal.digits n) := by
  have hd := Decimal.isDigit_of_mem_digits n
  refine ⟨?_, fun c hc => ?_⟩
  · obtain ⟨c, cs, hcs⟩ := List.exists_cons_of_ne_nil (Decimal.digits_ne_nil n)
    exact ⟨c, cs, hcs, hd c (hcs ▸ List.mem_cons_self)⟩
  · rw [isNumeralChar, hd c hc, Bool.true_or]

/-! ### Areas -/

theorem dropMark_mark : dropMark ('$' :: x) = x := rfl

theorem dropMark_of_head_ne (h : x.head? ≠ some '$') : dropMark x = x := by
  unfold dropMark
  split
  · exact absurd rfl h
  · rfl

theorem head?_columnLetters_append_ne {n : Nat} (hn : 0 < n) (cs : List Char) :
    (columnLetters n ++ cs).head? ≠ some '$' := by
  obtain ⟨c, ds, hcs⟩ := List.exists_cons_of_ne_nil (columnLetters_ne_nil hn)
  rw [hcs]
  simpa using ne_of_isAlpha (isAlpha_of_mem_columnLetters c (hcs ▸ List.mem_cons_self)) rfl

theorem takeCorner_text {column row : Nat} (hc : 0 < column) (hr : ∀ c ∈ rest.head?, Decimal.isDigit c = false) :
    takeCorner (columnLetters column ++ '$' :: (Decimal.digits row ++ rest)) = some ((column, row), rest) := by
  have halpha := isAlpha_of_mem_columnLetters (n := column)
  have hhead := head?_columnLetters_append_ne hc ('$' :: (Decimal.digits row ++ rest))
  have hmark : ∀ d ∈ ('$' :: (Decimal.digits row ++ rest)).head?, d.isAlpha = false := by
    rintro d ⟨⟩
    rfl
  have hdigits := Decimal.isDigit_of_mem_digits row
  simp only [takeCorner, dropMark_of_head_ne hhead, takeWhile_append_of_head halpha hmark,
    dropWhile_append_of_head halpha hmark, dropMark_mark, takeWhile_append_of_head hdigits hr,
    dropWhile_append_of_head hdigits hr, ofLetters_columnLetters, Decimal.ofDigits_digits]
  simp [columnLetters_ne_nil hc, Decimal.digits_ne_nil]

theorem takeCorner_mark (h : x.head? ≠ some '$') : takeCorner ('$' :: x) = takeCorner x := by
  unfold takeCorner
  rw [dropMark_mark, dropMark_of_head_ne h]

theorem takeQuoted_double (cs : List Char) :
    takeQuoted (Text.double '\'' cs ++ '\'' :: '!' :: rest) = some (cs, '!' :: rest) := by
  induction cs with
  | nil => simp [Text.double, takeQuoted]
  | cons c cs ih =>
    by_cases hc : c = '\''
    · simpa [Text.double, hc, takeQuoted] using ih
    · simpa [Text.double, hc, takeQuoted] using ih

theorem takeArea_cell {sheet : String} {column row : Nat} (h : takeCorner x = some ((column, row), rest))
    (hr : rest.head? ≠ some ':') : takeArea sheet x = some (.area ⟨sheet, column, row, column, row⟩, rest) := by
  rw [takeArea, h]
  split
  · next h' =>
    cases h'
    exact absurd rfl hr
  · next h' =>
    cases h'
    rfl
  · next h' => cases h'

theorem takeArea_range {sheet : String} {a b c d : Nat} (h : takeCorner x = some ((a, b), ':' :: y))
    (h' : takeCorner y = some ((c, d), rest)) : takeArea sheet x = some (.area ⟨sheet, a, b, c, d⟩, rest) := by
  simp only [takeArea, h, h', Option.map_some]

theorem isDigit_eq_false_of_isAlpha {c : Char} (hc : c.isAlpha = true) : Decimal.isDigit c = false := by
  have hn : c.val.toNat = c.toNat := rfl
  simp only [Char.isAlpha, Char.isUpper, Char.isLower, Bool.or_eq_true, Bool.and_eq_true, decide_eq_true_eq, ge_iff_le,
    UInt32.le_iff_toNat_le, hn] at hc
  simp only [Decimal.isDigit, Bool.and_eq_false_iff, decide_eq_false_iff_not]
  have : 'A'.val.toNat = 65 := rfl
  have : 'a'.val.toNat = 97 := rfl
  omega

/-- A text starts with the mark of an absolute row or column, after letters or at once. -/
def Marked (x : List Char) : Prop :=
  ∃ letters cs, x = letters ++ '$' :: cs ∧ ∀ c ∈ letters, c.isAlpha = true

theorem Marked.append (h : Marked x) : Marked (x ++ y) := by
  obtain ⟨letters, cs, rfl, hl⟩ := h
  exact ⟨letters, cs ++ y, by simp, hl⟩

theorem Marked.exists_head (h : Marked x) : ∃ c cs, x = c :: cs ∧ (c.isAlpha = true ∨ c = '$') := by
  obtain ⟨letters, cs, rfl, hl⟩ := h
  cases letters with
  | nil => exact ⟨'$', cs, rfl, .inr rfl⟩
  | cons c letters => exact ⟨c, letters ++ '$' :: cs, rfl, .inl (hl c List.mem_cons_self)⟩

theorem Marked.head_ne (h : Marked x) {d : Char} (hd : d.isAlpha = false) (hd' : d ≠ '$') : x.head? ≠ some d := by
  obtain ⟨c, cs, rfl, hc | rfl⟩ := h.exists_head
  · simpa using ne_of_isAlpha hc hd
  · simpa using hd'.symm

theorem Marked.readAtom (h : Marked x) : readAtom home x = takeArea home x := by
  have hdigit : x.head?.any Decimal.isDigit = false := by
    obtain ⟨c, cs, rfl, hc | rfl⟩ := h.exists_head
    · exact isDigit_eq_false_of_isAlpha hc
    · rfl
  rw [readAtom.eq_def]
  split
  · exact absurd rfl (h.head_ne rfl (by decide))
  · exact absurd rfl (h.head_ne rfl (by decide))
  · exact absurd rfl (h.head_ne rfl (by decide))
  · rw [hdigit, if_neg Bool.false_ne_true]
    obtain ⟨letters, cs, rfl, hl⟩ := h
    split
    · next h' =>
      rw [dropWhile_append_of_head hl (by simp)] at h'
      cases h'
    · rfl

theorem readAtom_quoted {sheet : List Char} :
    readAtom home (Text.quoted '\'' sheet ++ '!' :: x) = takeArea (String.ofList sheet) x := by
  have happend : Text.quoted '\'' sheet ++ '!' :: x = '\'' :: (Text.double '\'' sheet ++ '\'' :: '!' :: x) := by
    simp [Text.quoted]
  rw [happend, readAtom.eq_def]
  simp only [takeQuoted_double]

/-- A text that is read as an area on every sheet stands for it on the sheet in front. -/
theorem Marked.standsFor {sheet : String} {a : String → Area} (hx : Marked x)
    (h : ∀ s rest, Follows 5 rest → takeArea s (x ++ rest) = some (.area (a s), rest)) :
    StandsFor home 5 (qualifier home sheet ++ x) (.area (a sheet)) := by
  by_cases hs : sheet = home
  · rw [qualifier, if_pos hs, List.nil_append, hs]
    refine standsFor_atom ?_ (hx.head_ne rfl (by decide)) fun rest hf => ?_
    · obtain ⟨c, cs, rfl, -⟩ := hx.exists_head
      have hne {d : Char} (hd : d.isAlpha = false) (hd' : d ≠ '$') : c ≠ d := by
        simpa using hx.head_ne hd hd'
      exact ⟨c, cs, rfl, hne rfl (by decide), hne rfl (by decide), hne rfl (by decide)⟩
    · rw [hx.append.readAtom, h home rest hf]
  · rw [qualifier, if_neg hs]
    refine standsFor_atom ⟨'\'', _, rfl, by decide⟩ (by simp [Text.quoted]) fun rest hf => ?_
    have happend : Text.quoted '\'' sheet.toList ++ ['!'] ++ x ++ rest =
        Text.quoted '\'' sheet.toList ++ '!' :: (x ++ rest) := by
      rw [List.append_assoc, List.append_assoc]
      rfl
    rw [happend, readAtom_quoted, String.ofList_toList, h sheet rest hf]

theorem Cell.standsFor {c : Cell} (hc : 0 < c.column) :
    StandsFor home 5 (c.text home) (.area ⟨c.sheet, c.column, c.row, c.column, c.row⟩) := by
  rw [Cell.text, List.append_assoc]
  refine Marked.standsFor (a := (⟨·, c.column, c.row, c.column, c.row⟩))
    ⟨_, _, rfl, isAlpha_of_mem_columnLetters⟩ fun s rest hf => ?_
  rw [List.append_assoc, List.cons_append]
  refine takeArea_cell (takeCorner_text hc fun d hd => hf.isDigit_eq_false hd) fun h => ?_
  exact (hf.head ':' h).2 rfl

/-- The columns of a range exist. -/
structure RowRange.Exists (r : RowRange) : Prop where
  first : 0 < r.first
  last : 0 < r.last

theorem RowRange.Exists.standsFor {r : RowRange} (hr : r.Exists) :
    StandsFor home 5 (r.text home) (.area ⟨r.sheet, r.first, r.row, r.last, r.row⟩) := by
  have hassoc : r.text home = qualifier home r.sheet ++ '$' :: (columnLetters r.first ++ '$' ::
      (Decimal.digits r.row ++ ':' :: (columnLetters r.last ++ '$' :: Decimal.digits r.row))) := by
    simp [RowRange.text]
  rw [hassoc]
  refine Marked.standsFor (a := (⟨·, r.first, r.row, r.last, r.row⟩))
    ⟨[], _, rfl, fun c hc => absurd hc List.not_mem_nil⟩ fun s rest hf => ?_
  have hcolon : ∀ (cs : List Char), ∀ c ∈ (':' :: cs).head?, Decimal.isDigit c = false := by
    rintro cs c ⟨⟩
    rfl
  refine takeArea_range (y := columnLetters r.last ++ '$' :: (Decimal.digits r.row ++ rest)) ?_ ?_
  · simp only [List.cons_append, List.append_assoc]
    rw [takeCorner_mark (head?_columnLetters_append_ne hr.first _), takeCorner_text hr.first (hcolon _)]
  · exact takeCorner_text hr.last fun d hd => hf.isDigit_eq_false hd

/-! ### Calls -/

/-- Letters, at least one. -/
structure Name (x : List Char) : Prop where
  ne_nil : x ≠ []
  letters : ∀ c ∈ x, c.isAlpha = true

theorem name_of_all (h : (!x.isEmpty && x.all Char.isAlpha) = true) : Name x := by
  obtain ⟨hne, hx⟩ := Bool.and_eq_true_iff.mp h
  exact ⟨by simpa using hne, List.all_eq_true.mp hx⟩

theorem Name.readAtom (hx : Name x) :
    readAtom home (x ++ '(' :: y) = (readArguments home y).map fun (ts, rest) => (.call x ts, rest) := by
  have hbracket : ∀ c ∈ ('(' :: y).head?, c.isAlpha = false := by
    rintro c ⟨⟩
    rfl
  obtain ⟨c, cs, rfl⟩ := List.exists_cons_of_ne_nil hx.ne_nil
  have hc := hx.letters c List.mem_cons_self
  have hne {d : Char} (hd : d.isAlpha = false) : c ≠ d := ne_of_isAlpha hc hd
  rw [readAtom.eq_def]
  split
  · next h => exact absurd (List.cons.inj h).1 (hne rfl)
  · next h => exact absurd (List.cons.inj h).1 (hne rfl)
  · next h => exact absurd (List.cons.inj h).1 (hne rfl)
  · rw [List.cons_append, List.head?_cons, Option.any_some, isDigit_eq_false_of_isAlpha hc,
      if_neg Bool.false_ne_true, ← List.cons_append]
    split
    · next h =>
      rw [dropWhile_append_of_head hx.letters hbracket] at h
      cases h
      rw [takeWhile_append_of_head hx.letters hbracket]
    · next h => exact absurd (dropWhile_append_of_head hx.letters hbracket) (h y)

theorem readMore_last (h : readTerm home 1 x = some (t, ')' :: rest)) : readMore home x = some ([t], rest) := by
  rw [readMore.eq_def, h]
  rfl

theorem readMore_cons (h : readTerm home 1 x = some (t, ',' :: y)) (hy : y.length < x.length) :
    readMore home x = (readMore home y).map fun (ts, rest) => (t :: ts, rest) := by
  rw [readMore.eq_def, h]
  exact if_pos hy

theorem readMore_intercalate {xs : List (List Char)} {ts : List Term} (hx : StandsFor home 1 x t)
    (h : List.Forall₂ (StandsFor home 1) xs ts) :
    readMore home ([','].intercalate (x :: xs) ++ ')' :: rest) = some (t :: ts, rest) := by
  induction h generalizing x t with
  | nil =>
    rw [List.intercalate_singleton]
    exact readMore_last (hx.whole follows_close rfl)
  | @cons y u ys us hy hys ih =>
    have hread : readTerm home 1 (x ++ ',' :: ([','].intercalate (y :: ys) ++ ')' :: rest)) =
        some (t, ',' :: ([','].intercalate (y :: ys) ++ ')' :: rest)) := hx.whole follows_comma rfl
    rw [List.intercalate_cons_cons, List.append_assoc, List.append_assoc, List.singleton_append,
      readMore_cons hread (by simp only [List.length_append, List.length_cons]; omega), ih hy]
    rfl

theorem readArguments_of_starts (hx : Starts x) : readArguments home x = readMore home x := by
  obtain ⟨c, cs, rfl, -, -, hc⟩ := hx
  rw [readArguments.eq_def]
  split
  · next h => exact absurd (List.cons.inj h).1 hc
  · rfl

theorem Starts.intercalate {xs : List (List Char)} (hx : Starts x) : Starts ([','].intercalate (x :: xs)) := by
  cases xs with
  | nil => rwa [List.intercalate_singleton]
  | cons y ys =>
    rw [List.intercalate_cons_cons, List.append_assoc]
    exact hx.append

theorem readArguments_intercalate {xs : List (List Char)} {ts : List Term}
    (h : List.Forall₂ (StandsFor home 1) xs ts) :
    readArguments home ([','].intercalate xs ++ ')' :: rest) = some (ts, rest) := by
  cases h with
  | nil =>
    rw [List.intercalate_nil, readArguments.eq_def]
    rfl
  | cons hx hxs => rw [readArguments_of_starts hx.starts.intercalate.append, readMore_intercalate hx hxs]

theorem StandsFor.call {xs : List (List Char)} {ts : List Term} (hx : Name x)
    (h : List.Forall₂ (StandsFor home 1) xs ts) :
    StandsFor home 5 (x ++ '(' :: [','].intercalate xs ++ [')']) (.call x ts) := by
  obtain ⟨c, cs, hcs⟩ := List.exists_cons_of_ne_nil hx.ne_nil
  have hne {d : Char} (hd : d.isAlpha = false) : c ≠ d :=
    ne_of_isAlpha (hx.letters c (hcs ▸ List.mem_cons_self)) hd
  refine standsFor_atom ?_ ?_ fun rest _ => ?_
  · rw [hcs]
    exact ⟨c, _, rfl, hne rfl, hne rfl, hne rfl⟩
  · rw [hcs]
    simpa using hne rfl
  · have happend : x ++ '(' :: [','].intercalate xs ++ [')'] ++ rest =
        x ++ '(' :: ([','].intercalate xs ++ ')' :: rest) := by simp
    rw [happend, hx.readAtom, readArguments_intercalate h]
    rfl

/-! ### Texts in quotes -/

theorem standsFor_text {cs : List Char} (h : '\"' ∉ cs) : StandsFor home 5 ('\"' :: cs ++ ['\"']) (.text cs) := by
  have hcs : ∀ c ∈ cs, (c != '\"') = true := by
    intro c hc
    rw [bne_iff_ne]
    rintro rfl
    exact h hc
  refine standsFor_atom ⟨'\"', _, rfl, by decide⟩ (by simp) fun rest _ => ?_
  have happend : '\"' :: cs ++ ['\"'] ++ rest = '\"' :: (cs ++ '\"' :: rest) := by simp
  have hmark : ∀ c ∈ ('\"' :: rest).head?, (c != '\"') = false := by
    rintro c ⟨⟩
    rfl
  rw [happend, readAtom.eq_def]
  simp only [dropWhile_append_of_head hcs hmark, takeWhile_append_of_head hcs hmark]

/-! ### Whole contents -/

/-- A text that stands for a term is the formula of a cell after an equals sign. -/
theorem StandsFor.readFormula (h : StandsFor home 1 x t) : readFormula home (String.ofList ('=' :: x)) = some t := by
  have hread : readTerm home 1 (x ++ []) = some (t, []) := h.whole follows_nil rfl
  rw [List.append_nil] at hread
  rw [Sheet.readFormula, String.toList_ofList]
  simp only [hread]

end MonthlyModel.Sheet
