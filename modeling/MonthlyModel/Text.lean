/-!
Texts as lists of characters: blanks and what is left without them, letter case where it meets ASCII
names, and text between quote marks.
-/

namespace MonthlyModel.Text

/-! ### Blanks -/

/-- The characters with Unicode's White_Space property. -/
def isBlank (c : Char) : Bool :=
  let n := c.toNat
  (9 ≤ n && n ≤ 13) || n == 0x20 || n == 0x85 || n == 0xA0 || n == 0x1680 ||
    (0x2000 ≤ n && n ≤ 0x200A) || n == 0x2028 || n == 0x2029 || n == 0x202F || n == 0x205F || n == 0x3000

/-- A text from its first character on that is not blank. -/
def trimFront (cs : List Char) : List Char :=
  cs.dropWhile isBlank

/-- A text without the blanks at its ends. -/
def trim (cs : List Char) : List Char :=
  (trimFront (trimFront cs).reverse).reverse

/-! ### Letter case -/

/-- A character in upper case, as far as that is written with ASCII letters; any other character
stays itself. One character may turn into several. -/
def upper (c : Char) : List Char :=
  match c.toNat with
  | 0xDF => ['S', 'S']
  | 0x131 => ['I']
  | 0x17F => ['S']
  | 0xFB00 => ['F', 'F']
  | 0xFB01 => ['F', 'I']
  | 0xFB02 => ['F', 'L']
  | 0xFB03 => ['F', 'F', 'I']
  | 0xFB04 => ['F', 'F', 'L']
  | 0xFB05 | 0xFB06 => ['S', 'T']
  | _ => [c.toUpper]

/-- A text in upper case. -/
def upperText (cs : List Char) : List Char :=
  cs.flatMap upper

/-- The capital letter that a character is compared as when case does not matter: the long s and
the Kelvin sign are compared as S and K. -/
def fold (c : Char) : Char :=
  match c.toNat with
  | 0x17F => 'S'
  | 0x212A => 'K'
  | _ => c.toUpper

/-! ### Quote marks -/

/-- A text with every mark in it written twice. -/
def double (mark : Char) (cs : List Char) : List Char :=
  cs.flatMap fun c => if c = mark then [mark, mark] else [c]

/-- A text between marks. -/
def quoted (mark : Char) (cs : List Char) : List Char :=
  mark :: double mark cs ++ [mark]

end MonthlyModel.Text
