import Mathlib
import MonthlyModel.Proofs.Reference

/-! The one text of a reference.

The texts of references are told by a grammar. All texts that write one reference are its own text with
zeros in front of numbers, so reading the text of a reference gives the reference back. -/

namespace MonthlyModel

namespace Decimal

variable {c : Char} {s : List Char}

/-- Digits without the zeros in front; of zeros alone one is left. -/
def withoutZeros (s : List Char) : List Char :=
  match s.dropWhile (· = '0') with
  | [] => ['0']
  | c :: cs => c :: cs

theorem digitChar_digitValue (h : isDigit c = true) :
    digitChar (digitValue c) = c ∧ digitValue c < 10 ∧ (digitValue c = 0 ↔ c = '0') := by
  have htable : ∀ m < 58, isDigit (Char.ofNat m) = true → digitChar (digitValue (Char.ofNat m)) = Char.ofNat m ∧
      digitValue (Char.ofNat m) < 10 ∧ (digitValue (Char.ofNat m) = 0 ↔ Char.ofNat m = '0') := by decide
  have hc : c.toNat < 58 := by
    simp only [isDigit, Bool.and_eq_true, decide_eq_true_eq] at h
    omega
  simpa [h] using htable c.toNat hc

theorem ofDigits_eq_zero_iff (h : ∀ d ∈ s, isDigit d = true) : ofDigits s = 0 ↔ ∀ d ∈ s, d = '0' := by
  induction s using List.reverseRecOn with
  | nil => simp [ofDigits]
  | append_singleton s c ih =>
    obtain ⟨hs, hc⟩ := List.forall_mem_append.mp h
    obtain ⟨-, -, hzero⟩ := digitChar_digitValue (hc c (List.mem_singleton_self c))
    rw [ofDigits_append_singleton, List.forall_mem_append, ← ih hs, List.forall_mem_singleton, ← hzero]
    omega

theorem withoutZeros_append_zeros (h : ∀ d ∈ s, d = '0') (c : Char) : withoutZeros (s ++ [c]) = [c] := by
  have hdrop : s.dropWhile (· = '0') = [] := List.dropWhile_eq_nil_iff.mpr (by simpa using h)
  rw [withoutZeros, List.dropWhile_append, hdrop, List.isEmpty_nil, if_pos rfl]
  by_cases hc : c = '0' <;> simp [hc]

theorem withoutZeros_append (h : ¬ ∀ d ∈ s, d = '0') (s' : List Char) : withoutZeros (s ++ s') = withoutZeros s ++ s' := by
  have hdrop : s.dropWhile (· = '0') ≠ [] := by simpa [List.dropWhile_eq_nil_iff] using h
  obtain ⟨c, cs, hcs⟩ := List.exists_cons_of_ne_nil hdrop
  rw [withoutZeros, withoutZeros, List.dropWhile_append, if_neg (by simpa using hdrop), hcs]
  rfl

/-- The digits of the number that digits write are these digits without the zeros in front. -/
theorem digits_ofDigits (hs : s ≠ []) (h : ∀ d ∈ s, isDigit d = true) : digits (ofDigits s) = withoutZeros s := by
  induction s using List.reverseRecOn with
  | nil => exact absurd rfl hs
  | append_singleton s c ih =>
    obtain ⟨hdigits, hc⟩ := List.forall_mem_append.mp h
    obtain ⟨hchar, hlt, -⟩ := digitChar_digitValue (hc c (List.mem_singleton_self c))
    have hzero := ofDigits_eq_zero_iff hdigits
    rw [ofDigits_append_singleton, digits]
    by_cases hn : ofDigits s = 0
    · rw [if_pos (by omega), withoutZeros_append_zeros (hzero.mp hn), hn, Nat.mul_zero, Nat.zero_add, hchar]
    · have hne : s ≠ [] := by
        rintro rfl
        exact hn rfl
      have hdiv : (10 * ofDigits s + digitValue c) / 10 = ofDigits s := by omega
      have hmod : (10 * ofDigits s + digitValue c) % 10 = digitValue c := by omega
      rw [if_neg (by omega), withoutZeros_append (mt hzero.mpr hn), hdiv, hmod, ih hne hdigits, hchar]

end Decimal

namespace Reference

variable {cs name s : List Char} {numbers : List (List Char)} {family : Family} {path : List UInt32} {r r' : Reference}
  {edge : Option FlagEdge}

/-! ### Leading zeros -/

/-- A segment without the zeros in front, if it is a number. -/
def withoutZeros (s : List Char) : List Char :=
  if s ≠ [] ∧ s.all Decimal.isDigit then Decimal.withoutZeros s else s

/-- A text without the zeros in front of its numbers. The first character stands apart: no number starts
    there. -/
def withoutLeadingZeros : List Char → List Char
  | [] => []
  | c :: cs => c :: ['.'].intercalate ((segments cs).map withoutZeros)

theorem withoutZeros_of_isNumber (h : IsNumber s) : withoutZeros s = Decimal.digits (Decimal.ofDigits s) := by
  rw [withoutZeros, if_pos ⟨h.1, List.all_eq_true.mpr h.2⟩, Decimal.digits_ofDigits h.1 h.2]

theorem withoutZeros_of_not_isNumber (h : ¬ IsNumber s) : withoutZeros s = s :=
  if_neg fun hs => h ⟨hs.1, List.all_eq_true.mp hs.2⟩

theorem withoutLeadingZeros_cons {parts : List (List Char)} (c : Char) (hne : parts ≠ []) (h : ∀ s ∈ parts, '.' ∉ s) :
    withoutLeadingZeros (c :: ['.'].intercalate parts) = c :: ['.'].intercalate (parts.map withoutZeros) := by
  rw [withoutLeadingZeros, segments_intercalate hne h]

theorem IsName.not_isNumber (h : IsName name) : ¬ IsNumber name := by
  obtain ⟨c, cs, rfl, hc, -⟩ := h
  intro hnumber
  have hdigit : c.isDigit = true := hnumber.2 c List.mem_cons_self
  simp only [Char.isAlpha, Char.isUpper, Char.isLower, Char.isDigit, Bool.or_eq_true, Bool.and_eq_true, decide_eq_true_eq,
    UInt32.le_iff_toNat_le, ge_iff_le] at hc hdigit
  have hdigit : c.val.toNat ≤ 57 := hdigit.2
  rcases hc with ⟨hc, -⟩ | ⟨hc, -⟩
  · exact absurd (Nat.le_trans hc hdigit) (by decide)
  · exact absurd (Nat.le_trans hc hdigit) (by decide)

theorem IsName.point_notMem (h : IsName name) : '.' ∉ name := by
  obtain ⟨c, cs, rfl, hc, hcs⟩ := h
  intro hpoint
  rcases List.mem_cons.mp hpoint with rfl | hpoint
  · exact absurd hc (by decide)
  · exact absurd (hcs '.' hpoint) (by decide)

/-! ### Texts of references -/

theorem chars_timeConstant (name : List Char) : (timeConstant (String.ofList name)).chars = 'T' :: '.' :: name := by
  simp [chars, timeConstant, Family.lead, pathText, List.intercalate]

theorem chars_numbered (hne : path ≠ []) : chars ⟨family, path, none, edge⟩ =
    family.lead.toList ++ ['.'].intercalate (path.map (fun n => Decimal.digits n.toNat) ++ edgeSegment edge) := by
  obtain ⟨n, ns, rfl⟩ := List.exists_cons_of_ne_nil hne
  simp only [chars, pathText, List.map_cons, List.cons_append, intercalate_cons, List.flatMap_append]
  cases edge <;> simp [edgeSegment]

/-- The text of a reference is any text that writes it, without the leading zeros. -/
theorem chars_eq_of_writes (h : Writes cs r) : r.chars = withoutLeadingZeros cs := by
  cases h with
  | @constant name h =>
    have hparts : ∀ s ∈ [[], name], '.' ∉ s := by simpa using h.point_notMem
    have hname : ['.'].intercalate [[], name] = '.' :: name := by simp
    rw [chars_timeConstant, ← hname, withoutLeadingZeros_cons 'T' (List.cons_ne_nil _ _) hparts, List.map_cons,
      List.map_cons, List.map_nil, withoutZeros_of_not_isNumber h.not_isNumber]
    rfl
  | @numbered family numbers edge h =>
    obtain ⟨c, hlead⟩ := Family.exists_lead h.family_ne
    have hdigits : (numbers.map fun s => UInt32.ofNat (Decimal.ofDigits s)).map (fun n => Decimal.digits n.toNat) =
        numbers.map withoutZeros := by
      rw [List.map_map]
      refine List.map_congr_left fun s hs => ?_
      obtain ⟨hnumber, hle⟩ := h.number s hs
      have hlt : Decimal.ofDigits s < UInt32.size := Nat.lt_succ_of_le hle
      rw [Function.comp_apply, UInt32.toNat_ofNat_of_lt' hlt, withoutZeros_of_isNumber hnumber]
    have hedge : (edgeSegment edge).map withoutZeros = edgeSegment edge := by
      rcases edge with - | e
      · rfl
      · exact congrArg (fun s => [s]) (withoutZeros_of_not_isNumber (isNumber_edge_false e))
    rw [chars_numbered (by simpa using h.ne_nil), hdigits, hlead, List.singleton_append, List.singleton_append,
      withoutLeadingZeros_cons c (List.append_ne_nil_of_left_ne_nil h.ne_nil _) h.point_notMem, List.map_append, hedge]

theorem isNumber_digits (n : Nat) : IsNumber (Decimal.digits n) :=
  ⟨Decimal.digits_ne_nil n, Decimal.isDigit_of_mem_digits n⟩

theorem writes_chars_numbered (hf : family ≠ .timeConstant) (hcount : family.fewest ≤ path.length ∧ path.length ≤ family.most)
    (hedge : edge.isSome = true → family = .flag) : Writes (chars ⟨family, path, none, edge⟩) ⟨family, path, none, edge⟩ := by
  have hfits : Fits family (path.map fun n => Decimal.digits n.toNat) edge := by
    refine ⟨hf, by simpa using hcount, List.forall_mem_map.mpr fun n _ => ⟨isNumber_digits _, ?_⟩, hedge⟩
    rw [Decimal.ofDigits_digits]
    exact Nat.le_of_lt_succ n.toNat_lt
  have hpath : (path.map fun n => Decimal.digits n.toNat).map (fun s => UInt32.ofNat (Decimal.ofDigits s)) = path := by
    simp [Function.comp_def, Decimal.ofDigits_digits]
  have hwrites := Writes.numbered hfits
  rw [hpath] at hwrites
  rwa [chars_numbered (by simpa using hfits.ne_nil)]

theorem writes_chars (h : Writes cs r) : Writes r.chars r := by
  cases h with
  | constant h =>
    rw [chars_timeConstant]
    exact .constant h
  | numbered h => exact writes_chars_numbered h.family_ne (by simpa using h.count) h.edge

theorem writes_chars_of_ofPath (h : ofPath family path = .ok r) : Writes r.chars r := by
  unfold ofPath at h
  split at h
  · cases h
  · next hf =>
    split at h
    · next hcount =>
      cases h
      exact writes_chars_numbered hf hcount nofun
    · cases h

theorem parse_eq_ok_iff {text : String} : parse text = .ok r ↔ Writes text.toList r := by
  rw [← ofChars?_eq_some_iff, parse]
  cases ofChars? text.toList <;> simp

/-- A reference that a text writes, or that is made of a family and a path. -/
def Given (r : Reference) : Prop :=
  (∃ text, parse text = .ok r) ∨ ∃ family path, ofPath family path = .ok r

theorem Given.parse_text (h : Given r) : parse r.text = .ok r := by
  rw [parse_eq_ok_iff, text, String.toList_ofList]
  rcases h with ⟨text, h⟩ | ⟨family, path, h⟩
  · exact writes_chars (parse_eq_ok_iff.mp h)
  · exact writes_chars_of_ofPath h

/-- References have one text each. What the reader accepts is what the grammar tells; reading the text of
    a reference gives it back; a text that writes a reference is its text but for leading zeros; and
    references are equal exactly if their texts are. -/
theorem one_text_per_reference :
    (∀ text r, parse text = .ok r ↔ Writes text.toList r) ∧
    (∀ r, Given r → parse r.text = .ok r) ∧
    (∀ text r, parse text = .ok r → r.text = String.ofList (withoutLeadingZeros text.toList)) ∧
    ∀ r r', Given r → Given r' → (r = r' ↔ r.text = r'.text) := by
  refine ⟨fun text r => parse_eq_ok_iff, fun r h => h.parse_text, fun text r h => ?_, fun r r' h h' => ?_⟩
  · exact congrArg String.ofList (chars_eq_of_writes (parse_eq_ok_iff.mp h))
  · refine ⟨congrArg text, fun htext => ?_⟩
    have hread := h.parse_text
    rw [htext, h'.parse_text] at hread
    exact (Except.ok.inj hread).symm

end Reference

end MonthlyModel
