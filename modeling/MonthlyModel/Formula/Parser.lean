import MonthlyModel.Formula.Error
import MonthlyModel.Formula.Expr

/-!
Reading expressions from tokens. Operators climb by strength: after an operand, an operator that
binds tightly enough takes the expression so far as its left operand. Signs bind tighter than every
operator. Every reader returns the tokens that it left, with the proof that they are fewer; brackets
are counted, so that a text that ends too early can be reported with the brackets it left open.
-/

namespace MonthlyModel.Formula

/-- Tokens left of others after at least one was read. -/
abbrev Shorter (ts : List Token) :=
  { rest : List Token // rest.length < ts.length }

/-- What a closing bracket leaves. `depth` brackets are open, the awaited one among them. -/
def closing (depth : Nat) : (ts : List Token) → Except FormulaError (Shorter ts)
  | .close :: ts => .ok ⟨ts, by simp⟩
  | [] => .error (.malformed (.unclosed depth))
  | t :: _ => .error (.malformed (.notClosing t))

/-- A call with a number of arguments that the function takes. -/
def makeCall (f : Function) (arguments : List Expr) : Except FormulaError Expr :=
  if f.takes arguments.length then .ok (.call f arguments)
  else .error (.argumentCount f arguments.length)

mutual

/-- An operand with its signs: a number, a reference, an expression in brackets or a call. -/
def operand (depth : Nat) (ts : List Token) : Except FormulaError (Expr × Shorter ts) :=
  match ts with
  | .operator .subtract :: ts => do
    let (e, ⟨rest, h⟩) ← operand depth ts
    return (.negate e, ⟨rest, by simp; omega⟩)
  | .operator .add :: ts => do
    let (e, ⟨rest, h⟩) ← operand depth ts
    return (e, ⟨rest, by simp; omega⟩)
  | .number x :: ts => .ok (.number x, ⟨ts, by simp⟩)
  | .reference r :: ts => .ok (.reference r, ⟨ts, by simp⟩)
  | .open :: ts => do
    let (e, ⟨rest, h⟩) ← expression (depth + 1) 1 ts
    let ⟨rest, h'⟩ ← closing (depth + 1) rest
    return (e, ⟨rest, by simp; omega⟩)
  | .word name :: .open :: ts => do
    -- An unknown name is reported before anything that is wrong with the arguments.
    let some f := Function.ofName? name.toList
      | throw (.unknownFunction (String.ofList (Text.upperText name.toList)))
    let (es, ⟨rest, h⟩) ← arguments (depth + 1) ts
    let e ← makeCall f es
    return (e, ⟨rest, by simp; omega⟩)
  | .word name :: _ => .error (.malformed (.unknownWord name))
  | .close :: _ => .error (.malformed .unopened)
  | [] => .error (.malformed .unfinished)
  | t :: _ => .error (.malformed (.noOperand t))
termination_by (ts.length, 0)

/-- An expression whose operators outside of brackets have at least a given strength. -/
def expression (depth least : Nat) (ts : List Token) : Except FormulaError (Expr × Shorter ts) := do
  let (e, ⟨rest, h⟩) ← operand depth ts
  let (e, ⟨rest, h'⟩) ← climb depth least e rest
  return (e, ⟨rest, by omega⟩)
termination_by (ts.length, 1)

/-- Goes on with an expression for as long as operators of at least a given strength follow. -/
def climb (depth least : Nat) (left : Expr) (ts : List Token) :
    Except FormulaError (Expr × { rest : List Token // rest.length ≤ ts.length }) :=
  match ts with
  | .operator o :: more =>
    if o.strength < least then .ok (left, ⟨.operator o :: more, Nat.le_refl _⟩)
    else do
      let (right, ⟨rest, h⟩) ← expression depth o.rightStrength more
      let (e, ⟨rest, h'⟩) ← climb depth least (.binary o left right) rest
      return (e, ⟨rest, by simp; omega⟩)
  | ts => .ok (left, ⟨ts, Nat.le_refl _⟩)
termination_by (ts.length, 0)

/-- The arguments of a call, after its opening bracket and with its closing one. -/
def arguments (depth : Nat) (ts : List Token) : Except FormulaError (List Expr × Shorter ts) :=
  match ts with
  | .close :: ts => .ok ([], ⟨ts, by simp⟩)
  | ts => do
    let (es, ⟨rest, h⟩) ← argumentList depth ts
    let ⟨rest, h'⟩ ← closing depth rest
    return (es, ⟨rest, by omega⟩)
termination_by (ts.length, 3)

/-- At least one expression, divided by commas. -/
def argumentList (depth : Nat) (ts : List Token) : Except FormulaError (List Expr × Shorter ts) := do
  let (e, ⟨rest, h⟩) ← expression depth 1 ts
  match rest, h with
  | .comma :: more, h =>
    have : more.length < ts.length := Nat.lt_of_succ_lt h
    let (es, ⟨rest, h'⟩) ← argumentList depth more
    return (e :: es, ⟨rest, by omega⟩)
  | rest, h => return ([e], ⟨rest, h⟩)
termination_by (ts.length, 2)

end

/-- The expression that tokens write, all of them. -/
def ofTokens (ts : List Token) : Except FormulaError Expr := do
  match ← expression 0 1 ts with
  | (e, ⟨[], _⟩) => return e
  -- No bracket is open here, whatever was opened has been closed.
  | (_, ⟨.close :: _, _⟩) => throw (.malformed .unopened)
  | (_, ⟨t :: _, _⟩) => throw (.malformed (.trailing t))

/-- The text of a formula that is read: without blanks at its ends and without one equals sign in
front. -/
def body (cs : List Char) : List Char :=
  match Text.trim cs with
  | '=' :: rest => rest
  | rest => rest

/-- The expression that a text writes. -/
def parse (cs : List Char) : Except FormulaError Expr :=
  if (body cs).all Text.isBlank then .error (.malformed .empty) else ofTokens (tokens (body cs))

end MonthlyModel.Formula
