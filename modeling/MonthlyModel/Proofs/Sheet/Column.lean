import Mathlib
import MonthlyModel.Sheet.Column

/-! Columns and their letters.

Letters write a column in base 26 with the digits from 1 to 26, so every column has one writing. The reader
counts in 32 bits, and a number that it cuts short is past the last column. -/

namespace MonthlyModel.Sheet

variable {n : Nat} {c : Char} {cs : List Char}

/-! ### Letters -/

theorem isUpper_letter (h : n < 26) : (letter n).isUpper = true :=
  (by decide : ∀ m < 26, (letter m).isUpper = true) n h

theorem toNat_lt_of_isAlpha (h : c.isAlpha = true) : c.toNat < 123 := by
  simp only [Char.isAlpha, Char.isUpper, Char.isLower, Bool.or_eq_true, Bool.and_eq_true, decide_eq_true_eq,
    UInt32.le_iff_toNat_le, ge_iff_le] at h
  change c.val.toNat < 123
  rcases h with ⟨-, h⟩ | ⟨-, h⟩
  · exact Nat.lt_of_le_of_lt h (by decide)
  · exact Nat.lt_of_le_of_lt h (by decide)

/-- A letter in either case has a place from 1 to 26, which the capital letter has, too. -/
theorem letterValue_of_isAlpha (h : c.isAlpha = true) :
    1 ≤ letterValue c ∧ letterValue c ≤ 26 ∧ letter (letterValue c - 1) = c.toUpper := by
  have htable : ∀ m < 123, (Char.ofNat m).isAlpha = true → 1 ≤ letterValue (Char.ofNat m) ∧
      letterValue (Char.ofNat m) ≤ 26 ∧ letter (letterValue (Char.ofNat m) - 1) = (Char.ofNat m).toUpper := by decide
  simpa [h] using htable c.toNat (toNat_lt_of_isAlpha h)

theorem isAlpha_of_isUpper (h : c.isUpper = true) : c.isAlpha = true := by
  rw [Char.isAlpha, h, Bool.true_or]

theorem toUpper_of_isUpper (h : c.isUpper = true) : c.toUpper = c := by
  have htable : ∀ m < 123, (Char.ofNat m).isUpper = true → (Char.ofNat m).toUpper = Char.ofNat m := by decide
  simpa [h] using htable c.toNat (toNat_lt_of_isAlpha (isAlpha_of_isUpper h))

theorem map_toUpper_of_isUpper (h : ∀ c ∈ cs, c.isUpper = true) : cs.map Char.toUpper = cs :=
  (List.map_congr_left fun c hc => toUpper_of_isUpper (h c hc)).trans (List.map_id cs)

/-! ### Letters of a column -/

theorem columnLetters_ne_nil {n : Nat} (hn : 0 < n) : columnLetters n ≠ [] := by
  rw [columnLetters, if_neg (Nat.ne_of_gt hn)]
  simp

theorem isUpper_of_mem_columnLetters : ∀ c ∈ columnLetters n, c.isUpper = true := by
  induction n using columnLetters.induct with
  | case1 => simp [columnLetters]
  | case2 n h ih =>
    rw [columnLetters, if_neg h]
    exact List.forall_mem_append.mpr
      ⟨ih, List.forall_mem_singleton.mpr (isUpper_letter (Nat.mod_lt _ (by decide)))⟩

theorem isAlpha_of_mem_columnLetters {n : Nat} : ∀ c ∈ columnLetters n, c.isAlpha = true :=
  fun c hc => isAlpha_of_isUpper (isUpper_of_mem_columnLetters c hc)

/-- The column that letters write has these letters in capitals. -/
theorem columnLetters_ofLetters (h : ∀ c ∈ cs, c.isAlpha = true) : columnLetters (ofLetters cs) = cs.map Char.toUpper := by
  induction cs using List.reverseRecOn with
  | nil => simp [ofLetters, columnLetters]
  | append_singleton cs c ih =>
    obtain ⟨hcs, hc⟩ := List.forall_mem_append.mp h
    obtain ⟨hpos, hle, hletter⟩ := letterValue_of_isAlpha (hc c (List.mem_singleton_self c))
    have hdiv : (26 * ofLetters cs + letterValue c - 1) / 26 = ofLetters cs := by omega
    have hmod : (26 * ofLetters cs + letterValue c - 1) % 26 = letterValue c - 1 := by omega
    rw [ofLetters_append_singleton, columnLetters, if_neg (by omega), hdiv, hmod, ih hcs, hletter, List.map_append]
    rfl

/-! ### Places -/

/-- The number that letters write in base 26: a letter with `k` others after it counts `26 ^ k` times. -/
def placeValue : List Char → Nat
  | [] => 0
  | c :: cs => letterValue c * 26 ^ cs.length + placeValue cs

theorem foldl_letterValue (cs : List Char) (n : Nat) :
    cs.foldl (fun n c => 26 * n + letterValue c) n = n * 26 ^ cs.length + placeValue cs := by
  induction cs generalizing n with
  | nil => simp [placeValue]
  | cons c cs ih =>
    rw [List.foldl_cons, ih, placeValue, List.length_cons, Nat.pow_succ]
    ring

theorem ofLetters_eq_placeValue (cs : List Char) : ofLetters cs = placeValue cs := by
  rw [ofLetters, foldl_letterValue, Nat.zero_mul, Nat.zero_add]

/-! ### Counting in 32 bits -/

theorem toNat_ofNatClamp (n : Nat) : (UInt32.ofNatClamp n).toNat = min n (UInt32.size - 1) := by
  by_cases h : n < UInt32.size
  · rw [UInt32.toNat_ofNatClamp_of_lt h]
    omega
  · rw [UInt32.ofNatClamp, dif_neg h, UInt32.toNat_ofNatLT]
    omega

/-- A number that was cut short stays as large as 32 bits count, whatever letters follow. -/
theorem toNat_appendLetter {w : UInt32} (h : w.toNat = min n (UInt32.size - 1)) (c : Char) :
    (appendLetter w c).toNat = min (26 * n + letterValue c) (UInt32.size - 1) := by
  have hsize : UInt32.size = 4294967296 := rfl
  rw [appendLetter, toNat_ofNatClamp, toNat_ofNatClamp, h]
  omega

theorem toNat_foldl_appendLetter {w : UInt32} (h : w.toNat = min n (UInt32.size - 1)) (cs : List Char) :
    (cs.foldl appendLetter w).toNat = min (cs.foldl (fun n c => 26 * n + letterValue c) n) (UInt32.size - 1) := by
  induction cs generalizing n w with
  | nil => exact h
  | cons c cs ih => exact ih (toNat_appendLetter h c)

/-- The reader accepts letters of a column up to the last one, and nothing else: what it counts is the
    number that the letters write, or too large for a column. -/
theorem readColumn_eq_ok_iff {text : String} : readColumn text = .ok n ↔
    text.toList ≠ [] ∧ (∀ c ∈ text.toList, c.isAlpha = true) ∧ ofLetters text.toList = n ∧ n ≤ lastColumn := by
  have hcount := toNat_foldl_appendLetter (w := 0) (n := 0) rfl text.toList
  have hlast : lastColumn < UInt32.size - 1 := by decide
  rw [← ofLetters] at hcount
  unfold readColumn
  dsimp only
  split
  · next hempty => simp [List.isEmpty_iff.mp hempty]
  · next hempty =>
    have hne : text.toList ≠ [] := fun h => hempty (List.isEmpty_iff.mpr h)
    split
    · next hletters =>
      have hnot : ¬ ∀ c ∈ text.toList, c.isAlpha = true := by simpa using hletters
      simp [hnot]
    · next hletters =>
      have hall : ∀ c ∈ text.toList, c.isAlpha = true := by simpa using hletters
      rw [hcount]
      split
      · simp only [reduceCtorEq, false_iff]
        omega
      · simp only [Except.ok.injEq]
        grind

/-- Letters are the numeration of columns in base 26 without a zero. Every column from 1 on has letters of
    its own, capitals that write its number, and no other capitals write it. What is read as a column is
    letters that write one up to the last, however many there are; the column then has these letters in
    capitals. -/
theorem columnLetters_bijective :
    (∀ n, 0 < n → columnLetters n ≠ [] ∧ (∀ c ∈ columnLetters n, c.isUpper = true) ∧ placeValue (columnLetters n) = n ∧
      ∀ cs, (∀ c ∈ cs, c.isUpper = true) → placeValue cs = n → cs = columnLetters n) ∧
    (∀ n n', columnLetters n = columnLetters n' → n = n') ∧
    (∀ text, (∃ n, readColumn text = .ok n) ↔ text.toList ≠ [] ∧ (∀ c ∈ text.toList, c.isAlpha = true) ∧
      placeValue text.toList ≤ lastColumn) ∧
    ∀ text n, readColumn text = .ok n → n = placeValue text.toList ∧ columnLetters n = text.toList.map Char.toUpper := by
  refine ⟨fun n hn => ⟨columnLetters_ne_nil hn, isUpper_of_mem_columnLetters, ?_, fun cs hcs hvalue => ?_⟩,
    fun n n' h => ?_, fun text => ?_, fun text n h => ?_⟩
  · rw [← ofLetters_eq_placeValue, ofLetters_columnLetters]
  · have hletters := columnLetters_ofLetters fun c hc => isAlpha_of_isUpper (hcs c hc)
    rw [ofLetters_eq_placeValue, hvalue, map_toUpper_of_isUpper hcs] at hletters
    exact hletters.symm
  · rw [← ofLetters_columnLetters n, h, ofLetters_columnLetters]
  · simp only [readColumn_eq_ok_iff, ofLetters_eq_placeValue]
    exact ⟨fun ⟨n, hne, hall, hn, hle⟩ => ⟨hne, hall, hn ▸ hle⟩, fun ⟨hne, hall, hle⟩ => ⟨_, hne, hall, rfl, hle⟩⟩
  · obtain ⟨-, hall, rfl, -⟩ := readColumn_eq_ok_iff.mp h
    exact ⟨ofLetters_eq_placeValue _, columnLetters_ofLetters hall⟩

end MonthlyModel.Sheet
