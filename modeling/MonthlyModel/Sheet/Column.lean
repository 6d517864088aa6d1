import MonthlyModel.Decimal.Digits

/-!
Columns of a sheet and their letters: A to Z, then AA and on, a numeration in base 26 without a zero.
Columns are counted in 32 bits. Main statement: the letters of a column read back as the column.
-/

namespace MonthlyModel.Sheet

/-- The last column of a sheet. -/
def lastColumn : Nat :=
  16384

/-- The column some months after another. Columns have 32 bits: after the largest number comes 0, and a
position is cut to what 32 bits hold of it. -/
def columnAfter (first position : Nat) : Nat :=
  (first + position) % UInt32.size

theorem columnAfter_eq {first position : Nat} (h : first + position < UInt32.size) :
    columnAfter first position = first + position :=
  Nat.mod_eq_of_lt h

/-- What keeps letters from being a column. -/
inductive ColumnError where
  | empty
  | notLetters (text : String)
  /-- A column past the last one, as far as 32 bits count. -/
  | pastLast (column : UInt32)
deriving DecidableEq, Repr

/-- The error as a user reads it. -/
def ColumnError.message : ColumnError → String
  | .empty => "Invalid column letters: empty column letters"
  | .notLetters text => s!"Invalid column letters: {text}"
  | .pastLast n => s!"Column {n} out of bounds (max: {lastColumn})"

/-- The capital letter of a number below 26. -/
def letter (n : Nat) : Char :=
  Char.ofNat (65 + n)

/-- The place of a letter, from 1 on, whatever its case. -/
def letterValue (c : Char) : Nat :=
  c.toUpper.toNat - 64

/-- The letters of a column; column 0 has none. -/
def columnLetters (n : Nat) : List Char :=
  if n = 0 then [] else columnLetters ((n - 1) / 26) ++ [letter ((n - 1) % 26)]

/-- The number that letters write. -/
def ofLetters (cs : List Char) : Nat :=
  cs.foldl (fun n c => 26 * n + letterValue c) 0

/-- The number of some letters and one more. Products and sums stop at the largest number of 32 bits. -/
def appendLetter (n : UInt32) (c : Char) : UInt32 :=
  .ofNatClamp ((UInt32.ofNatClamp (n.toNat * 26)).toNat + letterValue c)

/-- The column that a text writes. -/
def readColumn (text : String) : Except ColumnError Nat :=
  let cs := text.toList
  if cs.isEmpty then .error .empty
  else if !cs.all Char.isAlpha then .error (.notLetters text)
  else
    -- A number that does not fit into 32 bits lies past the last column, and so does the largest that fits.
    let n := cs.foldl appendLetter 0
    if lastColumn < n.toNat then .error (.pastLast n) else .ok n.toNat

theorem letterValue_letter {n : Nat} (h : n < 26) : letterValue (letter n) = n + 1 :=
  (by decide : ∀ m < 26, letterValue (letter m) = m + 1) n h

theorem ofLetters_append_singleton (cs : List Char) (c : Char) :
    ofLetters (cs ++ [c]) = 26 * ofLetters cs + letterValue c := by
  simp [ofLetters]

/-- The letters of a column read back as the column. -/
theorem ofLetters_columnLetters (n : Nat) : ofLetters (columnLetters n) = n := by
  induction n using columnLetters.induct with
  | case1 => simp [columnLetters, ofLetters]
  | case2 n h ih =>
    rw [columnLetters, if_neg h, ofLetters_append_singleton, ih, letterValue_letter (Nat.mod_lt _ (by decide))]
    omega

end MonthlyModel.Sheet
