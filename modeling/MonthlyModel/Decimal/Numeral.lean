import MonthlyModel.Decimal.Digits

/-!
Reading decimal numerals as doubles. A numeral is digits with at most one point among or around
them and an optional exponent; its double is the nearest one to its exact value.
-/

namespace MonthlyModel.Decimal

/-- The double nearest to `mantissa * 10 ^ exponent`. -/
def nearest (mantissa : Nat) (exponent : Int) : Float :=
  Float.ofScientific mantissa (exponent < 0) exponent.natAbs

/-- The exponent after its letter: an optional sign and at least one digit, and nothing else. -/
def exponent? (cs : List Char) : Option Int :=
  let magnitude? (ds : List Char) : Option Int :=
    if !ds.isEmpty && ds.all isDigit then some (ofDigits ds) else none
  match cs with
  | '-' :: ds => (magnitude? ds).map (- ·)
  | '+' :: ds => magnitude? ds
  | ds => magnitude? ds

/-- The value of an unsigned numeral that is the whole text. -/
def numeral? (cs : List Char) : Option Float :=
  let (front, rest) := cs.span isDigit
  let (places, rest) := match rest with
    | '.' :: rest => rest.span isDigit
    | _ => ([], rest)
  if front.isEmpty && places.isEmpty then none
  else
    -- The digits are read as one whole number, from which every place takes a power of ten.
    let mantissa := ofDigits (front ++ places)
    match rest with
    | [] => some (nearest mantissa (-places.length))
    | c :: rest =>
      if c = 'e' ∨ c = 'E' then
        (exponent? rest).map fun exponent => nearest mantissa (exponent - places.length)
      else none

/-! ### Numerals inside a text -/

/-- The point at the front of a text with the digits after it, and the rest. -/
def takePlaces : List Char → List Char × List Char
  | '.' :: cs => ('.' :: cs.takeWhile isDigit, cs.dropWhile isDigit)
  | cs => ([], cs)

/-- The exponent at the front of a text, and the rest. A letter and a sign without a digit after them
are no exponent. -/
def takeExponent : List Char → List Char × List Char
  | e :: s :: cs =>
    if (e = 'e' || e = 'E') && (isDigit s || (s = '+' || s = '-') && cs.head?.any isDigit) then
      (e :: s :: cs.takeWhile isDigit, cs.dropWhile isDigit)
    else ([], e :: s :: cs)
  | cs => ([], cs)

/-- The longest numeral at the front of a text, and the rest. -/
def takeNumeral (cs : List Char) : List Char × List Char :=
  let places := takePlaces (cs.dropWhile isDigit)
  let exponent := takeExponent places.2
  (cs.takeWhile isDigit ++ places.1 ++ exponent.1, exponent.2)

theorem takePlaces_append (cs : List Char) : (takePlaces cs).1 ++ (takePlaces cs).2 = cs := by
  unfold takePlaces
  split <;> simp

theorem takeExponent_append (cs : List Char) : (takeExponent cs).1 ++ (takeExponent cs).2 = cs := by
  unfold takeExponent
  split
  · split <;> simp
  · simp

theorem takeNumeral_append (cs : List Char) : (takeNumeral cs).1 ++ (takeNumeral cs).2 = cs := by
  simp [takeNumeral, takeExponent_append, takePlaces_append]

/-- Where a digit or a point stands, there is a numeral to take. -/
theorem takeNumeral_ne_nil {c : Char} (h : isDigit c = true ∨ c = '.') (cs : List Char) :
    (takeNumeral (c :: cs)).1 ≠ [] := by
  by_cases hd : isDigit c = true
  · simp [takeNumeral, hd]
  · obtain rfl := h.resolve_left hd
    simp [takeNumeral, takePlaces, hd]

/-! ### Numbers that are a whole text -/

/-- Names of the values that no digits write, in any case of letters. -/
def named? (cs : List Char) : Option Float :=
  match String.ofList (cs.map Char.toLower) with
  | "nan" => some (0.0 / 0.0)
  | "inf" | "infinity" => some (1.0 / 0.0)
  | _ => none

/-- A signed numeral or name that is the whole text. -/
def read? (cs : List Char) : Option Float :=
  let unsigned? (cs : List Char) : Option Float := (numeral? cs).or (named? cs)
  match cs with
  | '-' :: rest => (unsigned? rest).map (- ·)
  | '+' :: rest => unsigned? rest
  | _ => unsigned? cs

end MonthlyModel.Decimal
