import Mathlib.Data.List.Basic
import MonthlyModel.Reference

/-! Texts that write references.

A time constant is written with its name. All other references are written with the letter of their family
and segments, which points divide: numbers, and the edge after them if there is one. The reader accepts
these texts and no others. -/

namespace MonthlyModel

theorem Family.ofLetter?_eq_some_iff {c : Char} {f : Family} :
    ofLetter? c = some f ↔ f ≠ .timeConstant ∧ f.lead.toList = [c] := by
  constructor
  · intro h
    unfold ofLetter? at h
    split at h <;> cases h <;> exact ⟨by decide, rfl⟩
  · rintro ⟨hf, hc⟩
    cases f <;> first | exact absurd rfl hf | (cases hc; rfl)

theorem Family.fewest_pos {f : Family} (h : f ≠ .timeConstant) : 0 < f.fewest := by
  cases f <;> first | exact absurd rfl h | decide

theorem Family.exists_lead {f : Family} (h : f ≠ .timeConstant) : ∃ c, f.lead.toList = [c] := by
  cases f <;> first | exact absurd rfl h | exact ⟨_, rfl⟩

namespace Reference

variable {cs name s : List Char} {parts ss numbers : List (List Char)} {path : List UInt32} {r : Reference}
  {edge : Option FlagEdge}

/-! ### The grammar -/

def IsNumber (s : List Char) : Prop :=
  s ≠ [] ∧ ∀ d ∈ s, Decimal.isDigit d = true

/-- A letter, and letters, digits and underscores after it. -/
def IsName (name : List Char) : Prop :=
  ∃ c cs, name = c :: cs ∧ c.isAlpha = true ∧ ∀ d ∈ cs, d.isAlphanum = true ∨ d = '_'

/-- The segment of an edge, if there is one. -/
def edgeSegment (edge : Option FlagEdge) : List (List Char) :=
  (edge.map (·.text.toList)).toList

/-- The segments of a reference are numbers of 32 bits, as many as its family takes; a flag may have an
    edge. -/
structure Fits (family : Family) (numbers : List (List Char)) (edge : Option FlagEdge) : Prop where
  family_ne : family ≠ .timeConstant
  count : family.fewest ≤ numbers.length ∧ numbers.length ≤ family.most
  number : ∀ s ∈ numbers, IsNumber s ∧ Decimal.ofDigits s ≤ 4294967295
  edge : edge.isSome = true → family = .flag

/-- What texts write. -/
inductive Writes : List Char → Reference → Prop where
  | constant {name : List Char} (h : IsName name) : Writes ('T' :: '.' :: name) (timeConstant (String.ofList name))
  | numbered {family : Family} {numbers : List (List Char)} {edge : Option FlagEdge} (h : Fits family numbers edge) :
    Writes (family.lead.toList ++ ['.'].intercalate (numbers ++ edgeSegment edge))
      ⟨family, numbers.map fun s => .ofNat (Decimal.ofDigits s), none, edge⟩

theorem Fits.ne_nil {family : Family} (h : Fits family numbers edge) : numbers ≠ [] := by
  rintro rfl
  have := Family.fewest_pos h.family_ne
  have hcount : family.fewest ≤ 0 := h.count.1
  omega

/-! ### Segments -/

theorem segments_eq_splitOn (cs : List Char) : segments cs = cs.splitOn '.' := by
  induction cs with
  | nil => rfl
  | cons c cs ih =>
    have hcons : (c :: cs).splitOn '.' = if (c == '.') = true then [] :: cs.splitOn '.' else (cs.splitOn '.').modifyHead (c :: ·) :=
      List.splitOnP_cons_eq_if_modifyHead ..
    rw [segments, ih, hcons]
    by_cases hc : c = '.'
    · simp [hc]
    · rw [if_neg hc, if_neg (by simpa using hc)]
      cases h : cs.splitOn '.' with
      | nil => exact absurd h (List.splitOn_ne_nil _ _)
      | cons => rfl

theorem intercalate_segments (cs : List Char) : ['.'].intercalate (segments cs) = cs := by
  rw [segments_eq_splitOn, List.intercalate_splitOn]

theorem segments_intercalate (hne : parts ≠ []) (h : ∀ s ∈ parts, '.' ∉ s) : segments (['.'].intercalate parts) = parts := by
  rw [segments_eq_splitOn, List.splitOn_intercalate _ h hne]

theorem intercalate_cons (s : List Char) (ss : List (List Char)) :
    ['.'].intercalate (s :: ss) = s ++ ss.flatMap ('.' :: ·) := by
  induction ss generalizing s with
  | nil => simp [List.intercalate]
  | cons s' ss ih => simp [List.intercalate_cons_cons, ih]

theorem point_notMem_of_isNumber (h : IsNumber s) : '.' ∉ s :=
  fun hpoint => nomatch h.2 '.' hpoint

theorem point_notMem_of_mem_edgeSegment (h : s ∈ edgeSegment edge) : '.' ∉ s := by
  rcases edge with - | - | -
  · cases h
  · cases List.mem_singleton.mp h
    decide
  · cases List.mem_singleton.mp h
    decide

theorem Fits.point_notMem {family : Family} (h : Fits family numbers edge) : ∀ s ∈ numbers ++ edgeSegment edge, '.' ∉ s :=
  List.forall_mem_append.mpr
    ⟨fun s hs => point_notMem_of_isNumber (h.number s hs).1, fun _ => point_notMem_of_mem_edgeSegment⟩

theorem segment?_eq_some_iff {n : UInt32} :
    segment? s = some n ↔ (IsNumber s ∧ Decimal.ofDigits s ≤ 4294967295) ∧ UInt32.ofNat (Decimal.ofDigits s) = n := by
  have hnumber : IsNumber s ↔ ¬ (s.isEmpty || !s.all Decimal.isDigit) = true := by
    simp [IsNumber]
  have hsize : Decimal.ofDigits s < UInt32.size ↔ Decimal.ofDigits s ≤ 4294967295 := Nat.lt_succ_iff
  unfold segment?
  split
  · next h => simp [hnumber, h]
  · next h =>
    dsimp only
    rw [hnumber, ← hsize, and_iff_right h]
    split
    · next hlt => simp [hlt]
    · next hlt => simp [hlt]

theorem mapM_segment?_eq_some_iff : parts.mapM segment? = some path ↔
    (∀ s ∈ parts, IsNumber s ∧ Decimal.ofDigits s ≤ 4294967295) ∧
      parts.map (fun s => UInt32.ofNat (Decimal.ofDigits s)) = path := by
  induction parts generalizing path with
  | nil => simp
  | cons s parts ih =>
    simp only [List.mapM_cons, Option.bind_eq_bind, Option.bind_eq_some_iff, Option.pure_def, Option.some.injEq, ih,
      segment?_eq_some_iff, List.forall_mem_cons, List.map_cons]
    constructor
    · rintro ⟨_, ⟨hs, rfl⟩, _, ⟨hparts, rfl⟩, rfl⟩
      exact ⟨⟨hs, hparts⟩, rfl⟩
    · rintro ⟨⟨hs, hparts⟩, rfl⟩
      exact ⟨_, ⟨hs, rfl⟩, _, ⟨hparts, rfl⟩, rfl⟩

/-! ### Edges -/

theorem takeEdge_append (parts : List (List Char)) : (takeEdge parts).2 ++ edgeSegment (takeEdge parts).1 = parts := by
  unfold takeEdge
  split
  · exact List.append_nil _
  · split
    · next h => exact List.dropLast_append_getLast? _ h
    · split
      · next h => exact List.dropLast_append_getLast? _ h
      · exact List.append_nil _

theorem isNumber_edge_false (e : FlagEdge) : ¬ IsNumber e.text.toList := by
  cases e <;> exact fun h => by simpa [FlagEdge.text, Decimal.isDigit] using h.2

/-- Numbers are no edges, so the edge is found if there is one. -/
theorem takeEdge_append_edgeSegment (hne : numbers ≠ []) (h : ∀ s ∈ numbers, IsNumber s) (edge : Option FlagEdge) :
    takeEdge (numbers ++ edgeSegment edge) = (edge, numbers) := by
  have hlast (e : FlagEdge) : numbers.getLast? ≠ some e.text.toList := fun hl =>
    isNumber_edge_false e (h _ (List.mem_of_getLast? hl))
  have hlong : 0 < numbers.length := List.length_pos_iff.mpr hne
  unfold takeEdge
  rcases edge with - | - | -
  · rw [edgeSegment]
    simp [hlast]
  · rw [if_neg (by simp [edgeSegment]; omega), if_pos (by simp [edgeSegment])]
    simp [edgeSegment]
  · rw [if_neg (by simp [edgeSegment]; omega), if_neg (by simp [edgeSegment, FlagEdge.text]), if_pos (by simp [edgeSegment])]
    simp [edgeSegment]

/-! ### Reading -/

theorem isConstantName_iff : isConstantName name = true ↔ IsName name := by
  cases name <;> simp [isConstantName, IsName]

theorem ofChars?_constant (name : List Char) : ofChars? ('T' :: '.' :: name) =
    if isConstantName name then some (timeConstant (String.ofList name)) else none := by
  rw [ofChars?]

theorem ofChars?_lead {family : Family} (hf : family ≠ .timeConstant) (cs : List Char) :
    ofChars? (family.lead.toList ++ cs) =
      let taken := if family = .flag then takeEdge (segments cs) else (none, segments cs)
      (taken.2.mapM segment?).bind fun path =>
        if family.fewest ≤ path.length ∧ path.length ≤ family.most then some ⟨family, path, none, taken.1⟩ else none := by
  cases family <;> first | exact absurd rfl hf | rfl

/-- What is left of the segments after the edge, and the edge itself. -/
theorem segments_of_taken {family : Family}
    (h : (if family = .flag then takeEdge (segments cs) else (none, segments cs)) = (edge, numbers)) :
    segments cs = numbers ++ edgeSegment edge ∧ (edge.isSome = true → family = .flag) := by
  split at h
  · next hflag =>
    refine ⟨?_, fun _ => hflag⟩
    rw [← takeEdge_append (segments cs), h]
  · cases h
    exact ⟨(List.append_nil _).symm, nofun⟩

theorem taken_of_fits {family : Family} (h : Fits family numbers edge) :
    (if family = .flag then takeEdge (numbers ++ edgeSegment edge) else (none, numbers ++ edgeSegment edge)) =
      (edge, numbers) := by
  split
  · exact takeEdge_append_edgeSegment h.ne_nil (fun s hs => (h.number s hs).1) edge
  · next hflag =>
    cases edge with
    | none => rw [edgeSegment, Option.map_none, Option.toList_none, List.append_nil]
    | some e => exact absurd (h.edge rfl) hflag

theorem writes_of_ofChars? (h : ofChars? cs = some r) : Writes cs r := by
  have hread := h
  unfold ofChars? at hread
  split at hread
  · next name =>
    rw [ofChars?_constant] at h
    split at h
    · next hname =>
      cases h
      exact .constant (isConstantName_iff.mp hname)
    · cases h
  · cases hread
  · next c cs _ =>
    obtain ⟨family, hfamily, -⟩ := Option.bind_eq_some_iff.mp hread
    obtain ⟨hf, hlead⟩ := Family.ofLetter?_eq_some_iff.mp hfamily
    rw [← List.singleton_append, ← hlead, ofChars?_lead hf] at h
    -- The rest of the word is cut at points, the edge of a flag is taken off, and what is left has to be
    -- numbers.
    generalize htaken : (if family = .flag then takeEdge (segments cs) else (none, segments cs)) = taken at h
    obtain ⟨edge, numbers⟩ := taken
    obtain ⟨happend, hedge⟩ := segments_of_taken htaken
    obtain ⟨path, hpath, h⟩ := Option.bind_eq_some_iff.mp h
    obtain ⟨hnumbers, rfl⟩ := mapM_segment?_eq_some_iff.mp hpath
    split at h
    · next hcount =>
      cases h
      rw [List.length_map] at hcount
      rw [← List.singleton_append, ← hlead, ← intercalate_segments cs, happend]
      exact .numbered ⟨hf, hcount, hnumbers, hedge⟩
    · cases h

theorem ofChars?_of_fits {family : Family} (h : Fits family numbers edge) :
    ofChars? (family.lead.toList ++ ['.'].intercalate (numbers ++ edgeSegment edge)) =
      some ⟨family, numbers.map fun s => .ofNat (Decimal.ofDigits s), none, edge⟩ := by
  have hpath := mapM_segment?_eq_some_iff.mpr ⟨h.number, rfl⟩
  rw [ofChars?_lead h.family_ne, segments_intercalate (List.append_ne_nil_of_left_ne_nil h.ne_nil _) h.point_notMem,
    taken_of_fits h]
  dsimp only
  rw [hpath, Option.bind_some, List.length_map, if_pos h.count]

/-- The reader accepts the texts of the grammar, with the references that they write. -/
theorem ofChars?_eq_some_iff : ofChars? cs = some r ↔ Writes cs r := by
  refine ⟨writes_of_ofChars?, fun h => ?_⟩
  cases h with
  | constant h => rw [ofChars?_constant, if_pos (isConstantName_iff.mpr h)]
  | numbered h => exact ofChars?_of_fits h

theorem ofChars?_cases (h : ofChars? cs = some r) :
    (∃ name, cs = 'T' :: '.' :: name ∧ isConstantName name = true ∧ r = timeConstant (String.ofList name)) ∨
      ∃ c s ss, cs = c :: s ++ (ss ++ (r.edge.map (·.text.toList)).toList).flatMap ('.' :: ·) ∧
        (Family.ofLetter? c).isSome = true ∧ (∀ s' ∈ s :: ss, IsNumber s') ∧ r.name = none := by
  rcases ofChars?_eq_some_iff.mp h with hname | hfits
  · exact .inl ⟨_, rfl, isConstantName_iff.mpr hname, rfl⟩
  · next family numbers edge =>
    right
    obtain ⟨s, ss, rfl⟩ := List.exists_cons_of_ne_nil hfits.ne_nil
    obtain ⟨c, hlead⟩ := Family.exists_lead hfits.family_ne
    have hletter := Family.ofLetter?_eq_some_iff.mpr ⟨hfits.family_ne, hlead⟩
    refine ⟨c, s, ss, ?_, by rw [hletter]; rfl, fun s' hs' => (hfits.number s' hs').1, rfl⟩
    change family.lead.toList ++ ['.'].intercalate (s :: (ss ++ edgeSegment edge)) = _
    rw [hlead, intercalate_cons]
    rfl

/-- A text that writes a reference to a calculation writes nothing beside its number. -/
theorem eq_calculation_of_ofChars? {id : UInt32} (h : ofChars? cs = some r) (hid : r.calculation? = some id) :
    r = .calculation id := by
  cases ofChars?_eq_some_iff.mp h with
  | constant => cases hid
  | @numbered family numbers edge hfits =>
    unfold calculation? at hid
    split at hid
    · next hfamily =>
      obtain rfl : family = .calculation := hfamily
      have hedge : edge = none := by
        cases edge with
        | none => rfl
        | some e => cases hfits.edge rfl
      obtain ⟨s, rfl⟩ : ∃ s, numbers = [s] := List.length_eq_one_iff.mp (Nat.le_antisymm hfits.count.2 hfits.count.1)
      cases hid
      rw [hedge]
      rfl
    · cases hid

theorem exists_timeConstant_of_ofChars? (h : ofChars? cs = some r) (hr : r.family = .timeConstant) :
    ∃ name, r = .timeConstant name := by
  cases ofChars?_eq_some_iff.mp h with
  | constant => exact ⟨_, rfl⟩
  | numbered hfits => exact absurd hr hfits.family_ne

end Reference

end MonthlyModel
