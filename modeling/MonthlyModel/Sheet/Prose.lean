import MonthlyModel.Formula.Function
import MonthlyModel.Reference
import MonthlyModel.Text.Word

/-!
Telling formulas from text that is meant for readers. Function names and references are struck out of
a text, word by word; what is left is prose if it still holds three Latin letters in a row.
-/

namespace MonthlyModel.Sheet

open MonthlyModel.Formula (Function)
open MonthlyModel.Text (Piece isDecimalDigit isLatinLetter)

/-- Whether a word is the name of a function, whatever its case. -/
def isFunctionName (word : List Char) : Bool :=
  Function.all.any fun f => f.name.toList == word.map Text.fold

/-- What stands in place of what is struck out. -/
def gap : Piece :=
  .other ' '

/-- The pieces of a text without function names. -/
def strikeFunctions (ps : List Piece) : List Piece :=
  ps.map fun
    | .word w => if isFunctionName w then gap else .word w
    | p => p

/-- Whether a word starts a numbered reference: a family letter and digits. -/
def startsReference : List Char → Bool
  | c :: ds => (Family.ofLetter? c).isSome && !ds.isEmpty && ds.all isDecimalDigit
  | [] => false

/-- Drops further segments of a path, and the edge of a flag, from the front. -/
def dropPath : List Piece → List Piece
  | .other '.' :: .word w :: rest =>
    if w.all isDecimalDigit then dropPath rest
    else if w = FlagEdge.start.text.toList ∨ w = FlagEdge.finish.text.toList then rest
    else .other '.' :: .word w :: rest
  | ps => ps

theorem length_dropPath_le (ps : List Piece) : (dropPath ps).length ≤ ps.length := by
  fun_induction dropPath ps with
  | case1 w rest _ ih => simp only [List.length_cons]; omega
  | case2 => simp only [List.length_cons]; omega
  | case3 => exact Nat.le_refl _
  | case4 => exact Nat.le_refl _

/-- The pieces of a text without references. A time constant is struck out if its name has letters
only. -/
def strikeReferences : List Piece → List Piece
  | .word ['T'] :: .other '.' :: .word name :: rest =>
    if name.all isLatinLetter then gap :: strikeReferences rest
    -- What follows the point may still be a reference of its own.
    else .word ['T'] :: .other '.' :: strikeReferences (.word name :: rest)
  | .word w :: rest =>
    if startsReference w then
      have := length_dropPath_le rest
      gap :: strikeReferences (dropPath rest)
    else .word w :: strikeReferences rest
  | p :: rest => p :: strikeReferences rest
  | [] => []
termination_by ps => ps.length

/-- Whether a word holds three Latin letters in a row. -/
def hasLetterRun : List Char → Bool
  | a :: b :: c :: rest =>
    isLatinLetter a && isLatinLetter b && isLatinLetter c || hasLetterRun (b :: c :: rest)
  | _ => false

/-- Whether a piece holds prose. -/
def isProse : Piece → Bool
  | .word w => hasLetterRun w
  | .other _ => false

/-- Whether a text is free of prose. -/
def looksLikeFormula (cs : List Char) : Bool :=
  !(strikeReferences (strikeFunctions (Text.pieces cs))).any isProse

end MonthlyModel.Sheet
