import MonthlyModel.Decimal.Numeral
import MonthlyModel.Decimal.Shortest
import MonthlyModel.Formula.Operator
import MonthlyModel.Reference
import MonthlyModel.Text

/-!
The tokens of formula text. The text is cut into lexemes, each with the characters it was read from;
between lexemes only blanks are dropped. Words are as long as they can be, so `R10` is never read as
`R1` and `0`. Main statement: a lexeme and the rest make up the text that it was taken from.
-/

namespace MonthlyModel.Formula

/-- The tokens of formulas. -/
inductive Token where
  | number (value : Float)
  | reference (r : Reference)
  /-- A function name, or a word that means nothing. -/
  | word (name : String)
  | operator (o : Operator)
  | comma
  | open
  | close
  /-- A character that starts no token. -/
  | stray (c : Char)
deriving DecidableEq

namespace Token

/-- A token in an error message. -/
def describe : Token → String
  | .number x => s!"number {Decimal.text x}"
  | .reference r => s!"reference '{r.text}'"
  | .word name => s!"token '{name}'"
  | .operator o => s!"'{o.symbol}'"
  | .comma => "','"
  | .open => "'('"
  | .close => "')'"
  | .stray c => s!"character '{c}'"

end Token

/-- A token and the characters it was read from. -/
structure Lexeme where
  token : Token
  chars : List Char

/-- The characters of words: ASCII letters, digits, underscores and points. -/
def isWordChar (c : Char) : Bool :=
  c.isAlphanum || c = '_' || c = '.'

/-- Words start with a letter or an underscore. -/
def startsWord (c : Char) : Bool :=
  c.isAlpha || c = '_'

/-- Whether the next character that is no blank opens a bracket. -/
def opensBracket (cs : List Char) : Bool :=
  (Text.trimFront cs).head? = some '('

/-- The token of a word. Before an opening bracket a word names a function, even one that could be
a reference. -/
def Token.ofWord (word rest : List Char) : Token :=
  if opensBracket rest then .word (String.ofList word)
  else
    match Reference.ofChars? word with
    | some r => .reference r
    | none => .word (String.ofList word)

/-- The token of a numeral. -/
def Token.ofNumeral (numeral : List Char) : Token :=
  match Decimal.numeral? numeral with
  | some x => .number x
  | none => .word (String.ofList numeral)

/-- Whether a numeral starts here: at a digit, or at a point before one. -/
def startsNumeral (c : Char) (cs : List Char) : Bool :=
  Decimal.isDigit c || c = '.' && cs.head?.any Decimal.isDigit

/-- The lexeme of one character. -/
def Lexeme.one (t : Token) (c : Char) (cs : List Char) : Lexeme × List Char :=
  (⟨t, [c]⟩, cs)

/-- The lexeme of one character, or of two if the second one is an equals sign. -/
def Lexeme.orEqual (short long : Operator) (c : Char) : List Char → Lexeme × List Char
  | '=' :: rest => (⟨.operator long, [c, '=']⟩, rest)
  | cs => (⟨.operator short, [c]⟩, cs)

/-- The lexeme of a numeral or a word, or of a character that starts neither. -/
def Lexeme.numeralOrWord (c : Char) (cs : List Char) : Lexeme × List Char :=
  if startsNumeral c cs then
    let numeral := Decimal.takeNumeral (c :: cs)
    (⟨.ofNumeral numeral.1, numeral.1⟩, numeral.2)
  else if startsWord c then
    let rest := cs.dropWhile isWordChar
    let word := c :: cs.takeWhile isWordChar
    (⟨.ofWord word rest, word⟩, rest)
  else one (.stray c) c cs

/-- The lexeme at the front of a text that starts with no blank, and the rest of the text. -/
def Lexeme.first (c : Char) (cs : List Char) : Lexeme × List Char :=
  match c with
  | '+' => one (.operator .add) c cs
  | '-' => one (.operator .subtract) c cs
  | '*' => one (.operator .multiply) c cs
  | '/' => one (.operator .divide) c cs
  | '^' => one (.operator .power) c cs
  | ',' => one .comma c cs
  | '(' => one .open c cs
  | ')' => one .close c cs
  | '<' => orEqual .less .atMost c cs
  | '>' => orEqual .greater .atLeast c cs
  -- One equals sign compares as two do.
  | '=' => orEqual .equal .equal c cs
  | _ => numeralOrWord c cs

theorem Lexeme.orEqual_append (short long : Operator) (c : Char) (cs : List Char) :
    (orEqual short long c cs).1.chars ++ (orEqual short long c cs).2 = c :: cs := by
  unfold orEqual
  split <;> rfl

theorem Lexeme.numeralOrWord_append (c : Char) (cs : List Char) :
    (numeralOrWord c cs).1.chars ++ (numeralOrWord c cs).2 = c :: cs := by
  unfold numeralOrWord
  split
  · exact Decimal.takeNumeral_append _
  · split
    · simp
    · rfl

/-- A lexeme and the rest make up the text that it was taken from. -/
theorem Lexeme.first_append (c : Char) (cs : List Char) :
    (first c cs).1.chars ++ (first c cs).2 = c :: cs := by
  unfold first
  split <;> first | rfl | exact orEqual_append .. | exact numeralOrWord_append ..

theorem Lexeme.chars_orEqual_ne_nil (short long : Operator) (c : Char) (cs : List Char) :
    (orEqual short long c cs).1.chars ≠ [] := by
  unfold orEqual
  split <;> exact List.cons_ne_nil _ _

theorem Lexeme.chars_numeralOrWord_ne_nil (c : Char) (cs : List Char) :
    (numeralOrWord c cs).1.chars ≠ [] := by
  unfold numeralOrWord
  split
  · next h =>
    simp only [startsNumeral, Bool.or_eq_true, Bool.and_eq_true, decide_eq_true_eq] at h
    exact Decimal.takeNumeral_ne_nil (h.imp id (·.1)) cs
  · split <;> exact List.cons_ne_nil _ _

theorem Lexeme.chars_first_ne_nil (c : Char) (cs : List Char) : (first c cs).1.chars ≠ [] := by
  unfold first
  split <;> first
    | exact List.cons_ne_nil _ _
    | exact chars_orEqual_ne_nil _ _ _ _
    | exact chars_numeralOrWord_ne_nil _ _

theorem Lexeme.length_first_lt (c : Char) (cs : List Char) : (first c cs).2.length < (c :: cs).length := by
  rw [← first_append c cs, List.length_append]
  have := List.length_pos_iff.2 (chars_first_ne_nil c cs)
  omega

theorem length_trimFront_le (cs : List Char) : (Text.trimFront cs).length ≤ cs.length :=
  (List.dropWhile_suffix _).length_le

/-- The lexemes of a text, blanks between them dropped. -/
def lexemes (cs : List Char) : List Lexeme :=
  match h : Text.trimFront cs with
  | [] => []
  | c :: rest =>
    have : (c :: rest).length ≤ cs.length := h ▸ length_trimFront_le cs
    have := Lexeme.length_first_lt c rest
    (Lexeme.first c rest).1 :: lexemes (Lexeme.first c rest).2
termination_by cs.length

/-- The tokens of a text. -/
def tokens (cs : List Char) : List Token :=
  (lexemes cs).map (·.token)

end MonthlyModel.Formula
