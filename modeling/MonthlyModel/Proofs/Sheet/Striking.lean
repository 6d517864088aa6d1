import MonthlyModel.Proofs.Formula.Parsing
import MonthlyModel.Proofs.Reference
import MonthlyModel.Proofs.Sheet.Reading
import MonthlyModel.Proofs.Text.Word
import MonthlyModel.Sheet.Prose

/-! What is left of a text when function names and references are struck out.

Texts can be taken apart where neither a word nor a reference goes on. Of a function name, a numeral and a
numbered reference no prose is left. Of a time constant the name is left if it has a digit or an
underscore, and it is taken for prose if it has three letters in a row. -/

namespace MonthlyModel.Sheet

open Formula (Function)
open Text (Piece pieces isLatinLetter)

/-- Whether a text holds three letters in a row that are no part of a function name or a reference. -/
def holdsProse (cs : List Char) : Bool :=
  (strikeReferences (strikeFunctions (pieces cs))).any isProse

theorem looksLikeFormula_eq (cs : List Char) : looksLikeFormula cs = !holdsProse cs :=
  rfl

variable {c : Char} {cs us vs w : List Char} {ps qs : List Piece}

/-! ### Parts of a text -/

/-- Pieces that no reference goes on with. -/
def EndsReference (qs : List Piece) : Prop :=
  ∀ q ∈ qs.head?, ∃ c, q = .other c ∧ c ≠ '.'

/-- A point and a word in front of pieces are in front of what ends there. -/
theorem EndsReference.append_eq (hq : EndsReference qs) {rest : List Piece} (h : ps ++ qs = .other '.' :: .word w :: rest) :
    ∃ rest', ps = .other '.' :: .word w :: rest' := by
  cases ps with
  | nil =>
    -- The point would start what follows, which starts with no point.
    obtain rfl : qs = _ := h
    obtain ⟨c, hc, hne⟩ := hq (.other '.') rfl
    cases hc
    exact absurd rfl hne
  | cons p ps =>
    rw [List.cons_append, List.cons.injEq] at h
    obtain ⟨rfl, h⟩ := h
    cases ps with
    | nil =>
      obtain rfl : qs = _ := h
      obtain ⟨c, hc, -⟩ := hq (.word w) rfl
      cases hc
    | cons p' ps =>
      rw [List.cons_append, List.cons.injEq] at h
      obtain ⟨rfl, -⟩ := h
      exact ⟨ps, rfl⟩

theorem dropPath_of_ne (h : ∀ w rest, ps ≠ .other '.' :: .word w :: rest) : dropPath ps = ps := by
  unfold dropPath
  split
  · next w rest => exact absurd rfl (h w rest)
  · rfl

theorem dropPath_append (hq : EndsReference qs) (ps : List Piece) : dropPath (ps ++ qs) = dropPath ps ++ qs := by
  fun_induction dropPath ps with
  | case1 w rest hw ih => simp [dropPath, hw, ih]
  | case2 w rest hw hedge => simp [dropPath, hw, hedge]
  | case3 w rest hw hedge => simp [dropPath, hw, hedge]
  | case4 ps hne =>
    refine dropPath_of_ne fun w rest h => ?_
    obtain ⟨rest', rfl⟩ := hq.append_eq h
    exact hne w rest' rfl

theorem strikeReferences_word (h : w = ['T'] → ∀ name rest, ps ≠ .other '.' :: .word name :: rest) :
    strikeReferences (.word w :: ps) =
      if startsReference w then gap :: strikeReferences (dropPath ps) else .word w :: strikeReferences ps := by
  rw [strikeReferences]
  exact fun name rest hps hw => h hw name rest hps

theorem strikeReferences_other (c : Char) (ps : List Piece) :
    strikeReferences (.other c :: ps) = .other c :: strikeReferences ps := by
  rw [strikeReferences]
  all_goals
    intros
    contradiction

@[simp]
theorem strikeReferences_nil : strikeReferences [] = [] := by
  rw [strikeReferences]

theorem strikeReferences_append (hq : EndsReference qs) (ps : List Piece) :
    strikeReferences (ps ++ qs) = strikeReferences ps ++ strikeReferences qs := by
  -- What follows a word stays where it was, so the same branch is taken.
  have hword {w : List Char} {rest : List Piece}
      (hne : ∀ name rest', rest = .other '.' :: .word name :: rest' → w = ['T'] → False) :
      w = ['T'] → ∀ name rest', rest ++ qs ≠ .other '.' :: .word name :: rest' := by
    intro hw name rest' h
    obtain ⟨rest'', rfl⟩ := hq.append_eq h
    exact hne name rest'' rfl hw
  fun_induction strikeReferences ps with
  | case1 name rest hletters ih => simp [strikeReferences, hletters, ih]
  | case2 name rest hletters ih => simpa [strikeReferences, hletters] using ih
  | case3 w rest hne hw hlength ih =>
    rw [List.cons_append, strikeReferences_word (hword hne), if_pos hw, dropPath_append hq, ih, List.cons_append]
  | case4 w rest hne hw ih =>
    rw [List.cons_append, strikeReferences_word (hword hne), if_neg hw, ih, List.cons_append]
  | case5 p rest hne hne' ih =>
    cases p with
    | word w => exact absurd rfl (hne' w)
    | other c => rw [List.cons_append, strikeReferences_other, ih, List.cons_append]
  | case6 => rfl

theorem strikeFunctions_append (ps qs : List Piece) :
    strikeFunctions (ps ++ qs) = strikeFunctions ps ++ strikeFunctions qs :=
  List.map_append

@[simp]
theorem holdsProse_nil : holdsProse [] = false := by
  simp [holdsProse, pieces, strikeFunctions]

/-- What stands outside of words makes no difference in front of a text. -/
theorem holdsProse_others_append (h : ∀ u ∈ us, Text.isWordChar u = false) : holdsProse (us ++ vs) = holdsProse vs := by
  induction us with
  | nil => rfl
  | cons u us ih =>
    obtain ⟨hu, hus⟩ := List.forall_mem_cons.mp h
    have hstrike : strikeFunctions (.other u :: pieces (us ++ vs)) = .other u :: strikeFunctions (pieces (us ++ vs)) := rfl
    rw [← ih hus, holdsProse, List.cons_append, Text.pieces_cons_other hu, hstrike, strikeReferences_other]
    rfl

/-- Neither a word nor a reference goes on with a character. -/
def Divides (c : Char) : Prop :=
  Text.isWordChar c = false ∧ c ≠ '.'

/-- A text holds prose if one of its parts does, where neither a word nor a reference goes on. -/
theorem holdsProse_append (h : ∀ v ∈ vs.head?, Divides v) :
    holdsProse (us ++ vs) = (holdsProse us || holdsProse vs) := by
  have hends : EndsReference (strikeFunctions (pieces vs)) := by
    cases vs with
    | nil => exact fun q hq => by cases hq
    | cons v vs =>
      obtain ⟨hv, hpoint⟩ := h v rfl
      rw [Text.pieces_cons_other hv]
      rintro q ⟨⟩
      exact ⟨v, rfl, hpoint⟩
  rw [holdsProse, Text.pieces_append fun v hv => (h v hv).1, strikeFunctions_append, strikeReferences_append hends,
    List.any_append]
  rfl

/-! ### Runs of letters -/

theorem three_le_of_hasLetterRun (h : hasLetterRun w = true) : 3 ≤ w.countP isLatinLetter := by
  fun_induction hasLetterRun w with
  | case1 a b c rest ih =>
    rcases Bool.or_eq_true_iff.mp h with h | h
    · simp only [Bool.and_eq_true] at h
      simp [h]
    · exact Nat.le_trans (ih h) (by rw [List.countP_cons (a := a)]; omega)
  | case2 => cases h

theorem dropPath_suffix (ps : List Piece) : dropPath ps <:+ ps := by
  fun_induction dropPath ps with
  | case1 w rest _ ih => exact (ih.trans (List.suffix_cons _ _)).trans (List.suffix_cons _ _)
  | case2 w rest => exact (List.suffix_cons _ _).trans (List.suffix_cons _ _)
  | case3 | case4 => exact List.suffix_refl _

theorem mem_of_mem_strikeFunctions (h : .word w ∈ strikeFunctions ps) : .word w ∈ ps := by
  obtain ⟨p, hp, heq⟩ := List.mem_map.mp h
  cases p with
  | other c => cases heq
  | word w' =>
    dsimp only at heq
    split at heq
    · cases heq
    · cases heq
      exact hp

theorem mem_of_mem_strikeReferences (h : .word w ∈ strikeReferences ps) : .word w ∈ ps := by
  fun_induction strikeReferences ps with
  | case1 name rest _ ih =>
    have := ih (by simpa [gap] using h)
    simp [this]
  | case2 name rest _ ih =>
    rcases List.mem_cons.mp h with h | h
    · simp [h]
    · have := ih (by simpa using h)
      exact List.mem_cons_of_mem _ (List.mem_cons_of_mem _ this)
  | case3 w' rest _ _ _ ih =>
    have := ih (by simpa [gap] using h)
    exact List.mem_cons_of_mem _ ((dropPath_suffix rest).subset this)
  | case4 w' rest _ _ ih | case5 p rest _ _ ih =>
    rcases List.mem_cons.mp h with h | h
    · simp [h]
    · exact List.mem_cons_of_mem _ (ih h)
  | case6 => cases h

theorem holdsProse_of_countP (h : cs.countP isLatinLetter < 3) : holdsProse cs = false := by
  refine Bool.eq_false_iff.mpr fun hprose => ?_
  obtain ⟨p, hp, hrun⟩ := List.any_eq_true.mp hprose
  cases p with
  | other c => cases hrun
  | word w =>
    have hinfix : w <:+: cs := Text.infix_of_mem_pieces (mem_of_mem_strikeFunctions (mem_of_mem_strikeReferences hp))
    have : w.countP isLatinLetter ≤ cs.countP isLatinLetter := hinfix.sublist.countP_le
    have := three_le_of_hasLetterRun hrun
    omega

/-! ### Numerals -/

theorem isLatinLetter_of_isDigit (h : Decimal.isDigit c = true) : isLatinLetter c = false := by
  refine Bool.eq_false_iff.mpr fun hletter => ?_
  rw [isDigit_eq_false_of_isAlpha hletter] at h
  cases h

theorem countP_takeWhile_isDigit (cs : List Char) : (cs.takeWhile Decimal.isDigit).countP isLatinLetter = 0 := by
  refine List.countP_eq_zero.mpr fun d hd => ?_
  rw [isLatinLetter_of_isDigit (List.mem_takeWhile_imp hd)]
  exact Bool.false_ne_true

theorem countP_takePlaces (cs : List Char) : (Decimal.takePlaces cs).1.countP isLatinLetter = 0 := by
  unfold Decimal.takePlaces
  split
  · simp [countP_takeWhile_isDigit, isLatinLetter]
  · rfl

/-- The letter of the exponent is the only one in a numeral. -/
theorem countP_takeExponent (cs : List Char) : (Decimal.takeExponent cs).1.countP isLatinLetter ≤ 1 := by
  unfold Decimal.takeExponent
  split
  · split
    · next e s cs h =>
      simp only [Bool.and_eq_true, Bool.or_eq_true, decide_eq_true_eq] at h
      have hs : isLatinLetter s = false := by
        rcases h.2 with hs | ⟨rfl | rfl, -⟩
        · exact isLatinLetter_of_isDigit hs
        · rfl
        · rfl
      simp [List.countP_cons, countP_takeWhile_isDigit, hs]
      split <;> omega
    · exact Nat.zero_le _
  · exact Nat.zero_le _

theorem holdsProse_takeNumeral (cs : List Char) : holdsProse (Decimal.takeNumeral cs).1 = false := by
  refine holdsProse_of_countP ?_
  have hexponent := countP_takeExponent (Decimal.takePlaces (cs.dropWhile Decimal.isDigit)).2
  rw [Decimal.takeNumeral, List.countP_append, List.countP_append, countP_takeWhile_isDigit, countP_takePlaces]
  omega

/-! ### Function names -/

theorem lt_of_isWordChar (h : Formula.isWordChar c = true) : c.toNat < 128 := by
  have hn : c.val.toNat = c.toNat := rfl
  simp only [Formula.isWordChar, Char.isAlphanum, Char.isAlpha, Char.isUpper, Char.isLower, Char.isDigit, Bool.or_eq_true,
    Bool.and_eq_true, decide_eq_true_eq, UInt32.le_iff_toNat_le, ge_iff_le, hn] at h
  have : 'Z'.val.toNat = 90 := rfl
  have : 'z'.val.toNat = 122 := rfl
  have : '9'.val.toNat = 57 := rfl
  rcases h with (((h | h) | h) | rfl) | rfl
  · omega
  · omega
  · omega
  · decide
  · decide

theorem isWordChar_of_ne (h : Formula.isWordChar c = true) (hpoint : c ≠ '.') : Text.isWordChar c = true := by
  rw [Text.isWordChar_of_lt (lt_of_isWordChar h)]
  simpa [Formula.isWordChar, hpoint] using h

theorem mem_all (f : Function) : f ∈ Function.all := by
  cases f <;> decide

theorem holdsProse_functionName {f : Function} (hw : ∀ c ∈ w, Formula.isWordChar c = true)
    (h : Function.ofName? w = some f) : holdsProse w = false := by
  have hlt : ∀ c ∈ w, c.toNat < 128 := fun c hc => lt_of_isWordChar (hw c hc)
  have hupper : w.map Char.toUpper = f.name.toList := by
    rw [← Text.upperText_of_lt hlt]
    exact Formula.ofName?_eq_some_iff.mp h
  -- Words of a formula may have points, words of prose may not. Names of functions have none.
  have hpoint : ∀ c ∈ w, c ≠ '.' := by
    rintro c hc rfl
    have hmem : '.' ∈ f.name.toList := hupper ▸ List.mem_map.mpr ⟨'.', hc, rfl⟩
    revert hmem
    cases f <;> decide
  have hne : w ≠ [] := by
    rintro rfl
    revert hupper
    cases f <;> decide
  have hname : isFunctionName w = true := by
    have hfold : w.map Text.fold = f.name.toList := by
      rw [← hupper]
      exact List.map_congr_left fun c hc => Text.fold_of_lt (hlt c hc)
    exact List.any_eq_true.mpr ⟨f, mem_all f, beq_iff_eq.mpr hfold.symm⟩
  have hstrike : strikeFunctions [.word w] = [.other ' '] := by simp [strikeFunctions, hname, gap]
  rw [holdsProse, Text.pieces_word hne fun c hc => isWordChar_of_ne (hw c hc) (hpoint c hc), hstrike,
    strikeReferences_other]
  simp [isProse]

/-! ### Time constants -/

theorem hasLetterRun_of_startsReference (hw : ∀ c ∈ w, c.toNat < 128) (h : startsReference w = true) :
    hasLetterRun w = false := by
  refine Bool.eq_false_iff.mpr fun hrun => ?_
  have hletters := three_le_of_hasLetterRun hrun
  cases w with
  | nil => cases h
  | cons c ds =>
    simp only [startsReference, Bool.and_eq_true, List.all_eq_true] at h
    have hdigits : ds.countP isLatinLetter = 0 := by
      refine List.countP_eq_zero.mpr fun d hd => ?_
      have hdigit := h.2 d hd
      rw [Text.isDecimalDigit_of_lt (hw d (List.mem_cons_of_mem _ hd))] at hdigit
      rw [isLatinLetter_of_isDigit hdigit]
      exact Bool.false_ne_true
    rw [List.countP_cons, hdigits] at hletters
    split at hletters <;> omega

theorem isWordChar_of_isConstantName {name : List Char} (h : Reference.isConstantName name = true) :
    name ≠ [] ∧ ∀ c ∈ name, Formula.isWordChar c = true ∧ c ≠ '.' := by
  cases name with
  | nil => cases h
  | cons d ds =>
    simp only [Reference.isConstantName, Bool.and_eq_true, List.all_eq_true] at h
    refine ⟨List.cons_ne_nil _ _, List.forall_mem_cons.mpr ⟨⟨?_, ?_⟩, fun c hc => ⟨?_, ?_⟩⟩⟩
    · simp [Formula.isWordChar, Char.isAlphanum, h.1]
    · rintro rfl
      exact absurd h.1 (by decide)
    · simp only [Formula.isWordChar, h.2 c hc, Bool.true_or]
    · rintro rfl
      exact absurd (h.2 _ hc) (by decide)

/-- Of a time constant its name may be left. -/
theorem holdsProse_constant {name : List Char} (h : Reference.isConstantName name = true) :
    holdsProse ('T' :: '.' :: name) = (!name.all isLatinLetter && !isFunctionName name && hasLetterRun name) := by
  obtain ⟨hne, hname⟩ := isWordChar_of_isConstantName h
  have hpieces : pieces ('T' :: '.' :: name) = [.word ['T'], .other '.', .word name] := by
    have hpoint : Text.isWordChar '.' = false := by decide +kernel
    have hhead : ∀ v ∈ ('.' :: name).head?, Text.isWordChar v = false := by
      rintro v ⟨⟩
      exact hpoint
    have hword := Text.pieces_word hne fun c hc => isWordChar_of_ne (hname c hc).1 (hname c hc).2
    have hsingle : pieces ['T'] = [.word ['T']] := Text.pieces_word (by simp) (by simpa using by decide +kernel)
    change pieces (['T'] ++ '.' :: name) = _
    rw [Text.pieces_append hhead, Text.pieces_cons_other hpoint, hword, hsingle]
    rfl
  have hT : isFunctionName ['T'] = false := by decide
  rw [holdsProse, hpieces]
  cases hfunction : isFunctionName name with
  | true =>
    have hstrike : strikeFunctions [.word ['T'], .other '.', .word name] = [.word ['T'], .other '.', .other ' '] := by
      simp [strikeFunctions, hfunction, hT, gap]
    rw [hstrike, strikeReferences_word (by simp), if_neg (by decide), strikeReferences_other, strikeReferences_other]
    simp [isProse, hasLetterRun]
  | false =>
    have hstrike : strikeFunctions [.word ['T'], .other '.', .word name] = [.word ['T'], .other '.', .word name] := by
      simp [strikeFunctions, hfunction, hT]
    -- A name of letters is struck with the letter before it. Any other name is looked at by itself.
    rw [hstrike, strikeReferences]
    cases hletters : name.all isLatinLetter with
    | true => simp [isProse, gap]
    | false =>
      rw [if_neg Bool.false_ne_true, strikeReferences_word (by simp)]
      split
      · next hstarts =>
        rw [hasLetterRun_of_startsReference (fun c hc => lt_of_isWordChar (hname c hc).1) hstarts]
        simp [isProse, gap, hasLetterRun, dropPath]
      · simp [isProse, hasLetterRun]

/-! ### Numbered references -/

theorem lt_of_isDigit (h : Decimal.isDigit c = true) : c.toNat < 128 := by
  simp only [Decimal.isDigit, Bool.and_eq_true, decide_eq_true_eq] at h
  omega

theorem isWordChar_of_isDigit (h : Decimal.isDigit c = true) : Text.isWordChar c = true := by
  have hdigit : c.isDigit = true := h
  rw [Text.isWordChar_of_lt (lt_of_isDigit h), Char.isAlphanum, hdigit, Bool.or_true, Bool.true_or]

theorem isFunctionName_of_isDigit {d : Char} (hd : Decimal.isDigit d = true) (h : d ∈ w) : isFunctionName w = false := by
  have hfold : Text.fold d = d := by
    have htable : ∀ n < 58, Text.fold (Char.ofNat n) = Char.ofNat n := by decide +kernel
    simp only [Decimal.isDigit, Bool.and_eq_true, decide_eq_true_eq] at hd
    simpa using htable d.toNat (by omega)
  have hnames : ∀ f ∈ Function.all, ∀ c ∈ f.name.toList, Decimal.isDigit c = false := by
    intro f _
    cases f <;> simp [Function.name, Decimal.isDigit]
  refine List.any_eq_false.mpr fun f hf heq => ?_
  have hmem : d ∈ f.name.toList := by
    rw [beq_iff_eq.mp heq]
    exact List.mem_map.mpr ⟨d, h, hfold⟩
  rw [hnames f hf d hmem] at hd
  cases hd

theorem all_isDecimalDigit {s : List Char} (h : Reference.IsNumber s) : s.all Text.isDecimalDigit = true := by
  refine List.all_eq_true.mpr fun d hd => ?_
  rw [Text.isDecimalDigit_of_lt (lt_of_isDigit (h.2 d hd))]
  exact h.2 d hd

/-- A word that is no function name. -/
structure Plain (w : List Char) : Prop where
  ne_nil : w ≠ []
  isWordChar : ∀ c ∈ w, Text.isWordChar c = true
  not_function : isFunctionName w = false

theorem Plain.number {s : List Char} (h : Reference.IsNumber s) : Plain s := by
  obtain ⟨d, ds, rfl⟩ := List.exists_cons_of_ne_nil h.1
  have hd : Decimal.isDigit d = true := h.2 d List.mem_cons_self
  exact ⟨h.1, fun c hc => isWordChar_of_isDigit (h.2 c hc), isFunctionName_of_isDigit hd List.mem_cons_self⟩

theorem Plain.lead {s : List Char} (hc : (Family.ofLetter? c).isSome = true) (h : Reference.IsNumber s) : Plain (c :: s) := by
  obtain ⟨d, ds, rfl⟩ := List.exists_cons_of_ne_nil h.1
  have hd : Decimal.isDigit d = true := h.2 d List.mem_cons_self
  refine ⟨List.cons_ne_nil _ _, List.forall_mem_cons.mpr ⟨?_, (Plain.number h).isWordChar⟩, ?_⟩
  · unfold Family.ofLetter? at hc
    split at hc
    case h_10 => cases hc
    all_goals decide +kernel
  · exact isFunctionName_of_isDigit hd (List.mem_cons_of_mem _ List.mem_cons_self)

theorem Plain.edge (e : FlagEdge) : Plain e.text.toList := by
  have hword : ∀ c ∈ e.text.toList, Formula.isWordChar c = true ∧ c ≠ '.' := by
    cases e <;> simp [FlagEdge.text, Formula.isWordChar]
  refine ⟨?_, fun c hc => isWordChar_of_ne (hword c hc).1 (hword c hc).2, ?_⟩
  · cases e <;> simp [FlagEdge.text]
  · cases e <;> decide

/-- The pieces of segments with points before them. -/
def pathPieces (ss : List (List Char)) : List Piece :=
  ss.flatMap fun s => [.other '.', .word s]

theorem strikeFunctions_path {ss : List (List Char)} (hw : Plain w) (hss : ∀ s ∈ ss, Plain s) :
    strikeFunctions (pieces (w ++ ss.flatMap ('.' :: ·))) = .word w :: pathPieces ss := by
  have hpoint : Text.isWordChar '.' = false := by decide +kernel
  induction ss generalizing w with
  | nil =>
    rw [List.flatMap_nil, List.append_nil, Text.pieces_word hw.ne_nil hw.isWordChar]
    simp [strikeFunctions, hw.not_function, pathPieces]
  | cons s ss ih =>
    obtain ⟨hs, hss⟩ := List.forall_mem_cons.mp hss
    rw [List.flatMap_cons, List.cons_append, Text.pieces_append (by simp [hpoint]), Text.pieces_word hw.ne_nil hw.isWordChar,
      Text.pieces_cons_other hpoint, List.singleton_append]
    have hpath := ih hs hss
    simp only [strikeFunctions, List.map_cons, hw.not_function] at hpath ⊢
    rw [hpath]
    rfl

theorem dropPath_numbers {ss : List (List Char)} (h : ∀ s ∈ ss, Reference.IsNumber s) (ps : List Piece) :
    dropPath (pathPieces ss ++ ps) = dropPath ps := by
  induction ss with
  | nil => rfl
  | cons s ss ih =>
    obtain ⟨hs, hss⟩ := List.forall_mem_cons.mp h
    change dropPath (.other '.' :: .word s :: (pathPieces ss ++ ps)) = _
    rw [dropPath, if_pos (all_isDecimalDigit hs), ih hss]

theorem dropPath_edge (edge : Option FlagEdge) : dropPath (pathPieces (edge.map (·.text.toList)).toList) = [] := by
  rcases edge with - | - | - <;> rfl

theorem holdsProse_numbered {s : List Char} {ss : List (List Char)} {edge : Option FlagEdge}
    (hc : (Family.ofLetter? c).isSome = true) (hss : ∀ s' ∈ s :: ss, Reference.IsNumber s') :
    holdsProse (c :: s ++ (ss ++ (edge.map (·.text.toList)).toList).flatMap ('.' :: ·)) = false := by
  obtain ⟨hs, hss⟩ := List.forall_mem_cons.mp hss
  have hplain : ∀ t ∈ ss ++ (edge.map (·.text.toList)).toList, Plain t := by
    intro t ht
    rcases List.mem_append.mp ht with ht | ht
    · exact .number (hss t ht)
    · obtain ⟨e, -, rfl⟩ : ∃ e, edge = some e ∧ e.text.toList = t := by simpa using ht
      exact .edge e
  have hdrop : dropPath (pathPieces (ss ++ (edge.map (·.text.toList)).toList)) = [] := by
    rw [pathPieces, List.flatMap_append]
    exact (dropPath_numbers hss _).trans (dropPath_edge edge)
  have hstarts : startsReference (c :: s) = true := by simp [startsReference, hc, hs.1, all_isDecimalDigit hs]
  rw [holdsProse, strikeFunctions_path (.lead hc hs) hplain, strikeReferences_word (by simp [hs.1]), if_pos hstarts, hdrop,
    strikeReferences_nil]
  rfl

/-- The name of a reference is taken for prose: it has three letters in a row, but not letters only. -/
def seemsProse (r : Reference) : Bool :=
  r.name.any fun name => !name.toList.all isLatinLetter && !isFunctionName name.toList && hasLetterRun name.toList

theorem holdsProse_reference {r : Reference} (h : Reference.ofChars? w = some r) : holdsProse w = seemsProse r := by
  rcases Reference.ofChars?_cases h with ⟨name, rfl, hname, rfl⟩ | ⟨c, s, ss, rfl, hc, hss, hnone⟩
  · rw [holdsProse_constant hname]
    simp [seemsProse, Reference.timeConstant]
  · rw [holdsProse_numbered hc hss, seemsProse, hnone]
    rfl

end MonthlyModel.Sheet
