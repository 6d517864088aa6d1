/-!
Records of character-separated text. Records end at line ends and fields at a delimiter. A field that
starts with the quote mark runs to the next lone one, and a doubled mark inside of it stands for one;
what follows the closing mark belongs to the field. Lines without anything in them are no records, and
the end of the text ends everything.

Texts are bytes here. The marks are ASCII, so they never meet the inside of another character.
-/

namespace MonthlyModel.Csv

/-- What divides and quotes fields. -/
structure Marks where
  delimiter : UInt8
  quote : UInt8
deriving DecidableEq, Repr

namespace Marks

/-- Commas and double quotes. -/
def standard : Marks :=
  ⟨0x2C, 0x22⟩

instance : Inhabited Marks :=
  ⟨standard⟩

end Marks

/-- A line feed or a carriage return. -/
def isLineEnd (b : UInt8) : Bool :=
  b = 0x0A || b = 0x0D

/-- Whether a field without quotes goes on with a byte. -/
def continuesField (m : Marks) (b : UInt8) : Bool :=
  b != m.delimiter && !isLineEnd b

/-- The rest of a field outside of quotes, and what follows the field. -/
def takePlain (m : Marks) (bs : List UInt8) : List UInt8 × List UInt8 :=
  (bs.takeWhile (continuesField m), bs.dropWhile (continuesField m))

/-- The rest of a field inside of quotes, and what follows the field. -/
def takeQuoted (m : Marks) : List UInt8 → List UInt8 × List UInt8
  | [] => ([], [])
  | [b] => if b = m.quote then ([], []) else ([b], [])
  | b :: b' :: bs =>
    if b = m.quote then
      if b' = m.quote then (b' :: (takeQuoted m bs).1, (takeQuoted m bs).2)
      -- The mark closed the quotes, but the field goes on up to the next delimiter.
      else takePlain m (b' :: bs)
    else (b :: (takeQuoted m (b' :: bs)).1, (takeQuoted m (b' :: bs)).2)

/-- The field at the front of a text, and what follows it. -/
def takeField (m : Marks) : List UInt8 → List UInt8 × List UInt8
  | [] => ([], [])
  | b :: bs => if b = m.quote then takeQuoted m bs else takePlain m (b :: bs)

theorem length_takePlain_le (m : Marks) (bs : List UInt8) : (takePlain m bs).2.length ≤ bs.length :=
  (List.dropWhile_suffix _).length_le

theorem length_takeQuoted_le (m : Marks) (bs : List UInt8) : (takeQuoted m bs).2.length ≤ bs.length := by
  fun_induction takeQuoted m bs with
  | case1 => simp
  | case2 => simp
  | case3 => simp
  | case4 bs ih => exact Nat.le_trans ih (Nat.le_succ_of_le (Nat.le_succ _))
  | case5 b' bs => exact Nat.le_succ_of_le (length_takePlain_le m (b' :: bs))
  | case6 b b' bs _ ih => exact Nat.le_succ_of_le ih

theorem length_takeField_le (m : Marks) (bs : List UInt8) : (takeField m bs).2.length ≤ bs.length := by
  unfold takeField
  split
  · exact Nat.le_refl _
  · next b bs =>
    split
    · exact Nat.le_succ_of_le (length_takeQuoted_le m bs)
    · exact length_takePlain_le m (b :: bs)

/-- The fields of the record at the front of a text, and what follows it: nothing, or a line end and
more. -/
def takeFields (m : Marks) (bs : List UInt8) : List (List UInt8) × List UInt8 :=
  match h : takeField m bs with
  | (field, []) => ([field], [])
  | (field, b :: rest) =>
    if b = m.delimiter then
      have : rest.length < bs.length := by
        have := length_takeField_le m bs
        rwa [h] at this
      (field :: (takeFields m rest).1, (takeFields m rest).2)
    else ([field], b :: rest)
termination_by bs.length

theorem length_takeFields_le (m : Marks) (bs : List UInt8) : (takeFields m bs).2.length ≤ bs.length := by
  fun_induction takeFields m bs with
  | case1 => simp
  | case2 _ _ _ _ this ih => exact Nat.le_trans ih (Nat.le_of_lt this)
  | case3 bs field b rest h _ =>
    have := length_takeField_le m bs
    rwa [h] at this

/-- The records of a text. -/
def records (m : Marks) (bs : List UInt8) : List (List (List UInt8)) :=
  match h : bs.dropWhile isLineEnd with
  | [] => []
  | b :: more =>
    match h' : takeFields m (b :: more) with
    | (fields, []) => [fields]
    | (fields, _ :: rest) =>
      have : rest.length < bs.length := by
        have hrest := length_takeFields_le m (b :: more)
        have hmore := (List.dropWhile_suffix isLineEnd (l := bs)).length_le
        rw [h'] at hrest
        rw [h] at hmore
        exact Nat.lt_of_lt_of_le (Nat.lt_of_succ_le hrest) hmore
      fields :: records m rest
termination_by bs.length

/-- A text without the mark that tells its encoding. -/
def withoutByteOrderMark : List UInt8 → List UInt8
  | 0xEF :: 0xBB :: 0xBF :: bs => bs
  | bs => bs

end MonthlyModel.Csv
