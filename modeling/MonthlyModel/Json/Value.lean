import MonthlyModel.Json.Numeral

/-!
JSON values and their reader. Objects keep their members in order, equal keys included. Numerals stay
unread, and a string with an escape that stands for no character is kept as a string without a text:
both are faults only where a number or a text is asked for.
-/

namespace MonthlyModel

/-- A value in JSON. -/
inductive Json where
  | null
  | bool (value : Bool)
  | number (n : Json.Numeral)
  | string (text : Option String)
  | array (items : List Json)
  | object (members : List (Option String × Json))

namespace Json

/-! ### Strings -/

/-- A character of a string, or a number that an escape gives. -/
inductive StringPart where
  | char (c : Char)
  | unit (n : Nat)

/-- The character of an escape without a number. -/
def escaped? : Char → Option Char
  | '"' => some '"'
  | '\\' => some '\\'
  | '/' => some '/'
  | 'b' => some (Char.ofNat 8)
  | 'f' => some (Char.ofNat 12)
  | 'n' => some '\n'
  | 'r' => some '\r'
  | 't' => some '\t'
  | _ => none

/-- The value of a hexadecimal digit. -/
def hexValue? (c : Char) : Option Nat :=
  if Decimal.isDigit c then some (Decimal.digitValue c)
  else if 97 ≤ c.toNat && c.toNat ≤ 102 then some (c.toNat - 87)
  else if 65 ≤ c.toNat && c.toNat ≤ 70 then some (c.toNat - 55)
  else none

/-- The number that four hexadecimal digits write. -/
def hexNumber? (a b c d : Char) : Option Nat := do
  return ((← hexValue? a) * 16 + (← hexValue? b)) * 256 + ((← hexValue? c) * 16 + (← hexValue? d))

/-- The parts of a string after its opening quote, and what follows the closing one. -/
def takeString : List Char → Option (List StringPart × List Char)
  | [] => none
  | '"' :: rest => some ([], rest)
  | '\\' :: 'u' :: a :: b :: c :: d :: rest => do
    let n ← hexNumber? a b c d
    let (parts, rest) ← takeString rest
    return (.unit n :: parts, rest)
  | '\\' :: c :: rest => do
    let c ← escaped? c
    let (parts, rest) ← takeString rest
    return (.char c :: parts, rest)
  | c :: rest => do
    if c.toNat < 0x20 then none
    else
      let (parts, rest) ← takeString rest
      return (.char c :: parts, rest)

/-- Whether a number is the first half of a pair. -/
def isHighSurrogate (n : Nat) : Bool :=
  0xD800 ≤ n && n < 0xDC00

/-- Whether a number is the second half of a pair. -/
def isLowSurrogate (n : Nat) : Bool :=
  0xDC00 ≤ n && n < 0xE000

/-- The characters of a string. Two surrogates make up one character, and one alone none. -/
def characters? : List StringPart → Option (List Char)
  | [] => some []
  | .char c :: parts => (characters? parts).map (c :: ·)
  | .unit m :: .unit n :: parts =>
    -- The first half of a pair needs the second one, which cannot stand alone.
    if isHighSurrogate m then
      if isLowSurrogate n then
        (characters? parts).map (Char.ofNat (0x10000 + (m - 0xD800) * 0x400 + (n - 0xDC00)) :: ·)
      else none
    else if isLowSurrogate m then none
    else (characters? (.unit n :: parts)).map (Char.ofNat m :: ·)
  | .unit m :: parts =>
    if isHighSurrogate m || isLowSurrogate m then none
    else (characters? parts).map (Char.ofNat m :: ·)

/-- A string ends after it began. -/
theorem length_takeString_lt {cs rest : List Char} {parts : List StringPart}
    (h : takeString cs = some (parts, rest)) : rest.length < cs.length := by
  fun_induction takeString cs generalizing parts with
  | case1 => cases h
  | case2 => cases h; exact Nat.lt_succ_self _
  | case3 a b c d cs ih =>
    obtain ⟨_, _, h⟩ := Option.bind_eq_some_iff.1 h
    obtain ⟨⟨_, _⟩, h', h⟩ := Option.bind_eq_some_iff.1 h
    cases h
    have := ih h'
    simp only [List.length_cons]
    omega
  | case4 c cs _ ih =>
    obtain ⟨_, _, h⟩ := Option.bind_eq_some_iff.1 h
    obtain ⟨⟨_, _⟩, h', h⟩ := Option.bind_eq_some_iff.1 h
    cases h
    have := ih h'
    simp only [List.length_cons]
    omega
  | case5 => cases h
  | case6 c cs _ _ _ _ ih =>
    obtain ⟨⟨_, _⟩, h', h⟩ := Option.bind_eq_some_iff.1 h
    cases h
    exact Nat.lt_succ_of_lt (ih h')

/-! ### Values -/

/-- A space, a tab or a line end. -/
def isBlank (c : Char) : Bool :=
  c = ' ' || c = '\t' || c = '\n' || c = '\r'

/-- What is left of a text when something was read from it. -/
abbrev Left (cs : List Char) :=
  { rest : List Char // rest.length < cs.length }

/-- The first character that is no blank, and what follows it. -/
def first? (cs : List Char) : Option (Char × Left cs) :=
  match h : cs.dropWhile isBlank with
  | [] => none
  | c :: rest =>
    have : (c :: rest).length ≤ cs.length := h ▸ (List.dropWhile_suffix isBlank).length_le
    some (c, ⟨rest, this⟩)

/-- What is left after a character that must come first, blanks before it aside. -/
def expect (c : Char) (cs : List Char) : Option (Left cs) := do
  let (d, rest) ← first? cs
  if c = d then return rest else none

/-- What follows a word that must be at the front. -/
def afterWord : List Char → (cs : List Char) → Option { rest : List Char // rest.length ≤ cs.length }
  | [], cs => some ⟨cs, Nat.le_refl _⟩
  | _ :: _, [] => none
  | w :: ws, c :: cs => do
    if w = c then
      let ⟨rest, h⟩ ← afterWord ws cs
      return ⟨rest, Nat.le_succ_of_le h⟩
    else none

/-- The rest of a string whose opening quote was read, without a text if some escape stands for no
character. -/
def takeText (cs : List Char) : Option (Option String × Left cs) :=
  match h : takeString cs with
  | none => none
  | some (parts, rest) => some ((characters? parts).map String.ofList, ⟨rest, length_takeString_lt h⟩)

/-- The numeral at the front of a text, and what is left. -/
def takeNumeral (cs : List Char) : Option (Numeral × Left cs) :=
  match h : Numeral.take cs with
  | none => none
  | some (n, rest) => some (n, ⟨rest, Numeral.length_take_lt h⟩)

/-- The value that is a word of which the first letter was read. -/
def takeWord (word : String) (value : Json) (cs : List Char) :
    Option (Json × { rest : List Char // rest.length ≤ cs.length }) :=
  (afterWord word.toList cs).map (value, ·)

mutual

/-- The value at the front of a text, and what is left. -/
def takeValue (cs : List Char) : Option (Json × Left cs) := do
  let (c, ⟨more, _⟩) ← first? cs
  match c with
  | 'n' =>
    let (v, ⟨rest, _⟩) ← takeWord "ull" .null more
    return (v, ⟨rest, by omega⟩)
  | 't' =>
    let (v, ⟨rest, _⟩) ← takeWord "rue" (.bool true) more
    return (v, ⟨rest, by omega⟩)
  | 'f' =>
    let (v, ⟨rest, _⟩) ← takeWord "alse" (.bool false) more
    return (v, ⟨rest, by omega⟩)
  | '"' =>
    let (s, ⟨rest, _⟩) ← takeText more
    return (.string s, ⟨rest, by omega⟩)
  | '[' =>
    match expect ']' more with
    | some ⟨rest, _⟩ => return (.array [], ⟨rest, by omega⟩)
    | none =>
      let (vs, ⟨rest, _⟩) ← takeItems more
      return (.array vs, ⟨rest, by omega⟩)
  | '\x7b' =>
    match expect '\x7d' more with
    | some ⟨rest, _⟩ => return (.object [], ⟨rest, by omega⟩)
    | none =>
      let (ms, ⟨rest, _⟩) ← takeMembers more
      return (.object ms, ⟨rest, by omega⟩)
  | c =>
    let (n, ⟨rest, _⟩) ← takeNumeral (c :: more)
    return (.number n, ⟨rest, by simp only [List.length_cons] at *; omega⟩)
termination_by (cs.length, 0)

/-- The items of an array from one on, up to its closing bracket. -/
def takeItems (cs : List Char) : Option (List Json × Left cs) := do
  let (v, ⟨rest, _⟩) ← takeValue cs
  let (c, ⟨more, _⟩) ← first? rest
  if c = ',' then
    let (vs, ⟨rest, _⟩) ← takeItems more
    return (v :: vs, ⟨rest, by omega⟩)
  else if c = ']' then return ([v], ⟨more, by omega⟩)
  else none
termination_by (cs.length, 1)

/-- The members of an object from one on, up to its closing brace. -/
def takeMembers (cs : List Char) : Option (List (Option String × Json) × Left cs) := do
  let ⟨more, _⟩ ← expect '"' cs
  let (key, ⟨rest, _⟩) ← takeText more
  let ⟨rest, _⟩ ← expect ':' rest
  let (v, ⟨rest, _⟩) ← takeValue rest
  let (c, ⟨more, _⟩) ← first? rest
  if c = ',' then
    let (ms, ⟨rest, _⟩) ← takeMembers more
    return ((key, v) :: ms, ⟨rest, by omega⟩)
  else if c = '\x7d' then return ([(key, v)], ⟨more, by omega⟩)
  else none
termination_by (cs.length, 0)

end

/-- The value that a text writes, if it writes one and nothing else. -/
def parse? (cs : List Char) : Option Json := do
  let (v, ⟨rest, _⟩) ← takeValue cs
  if (first? rest).isNone then return v else none

end Json

end MonthlyModel
