import MonthlyModel.Proofs.Formula.Names

/-! The counter of open brackets.

A reader with a counter of its own counts up wherever it reads an opening bracket, counts down at the closing one
that belongs to it, and would stop if it had to count down from nought. It never has to: it reads what the parser
reads, with as many brackets open after a part as before it. So the brackets that a text leaves open when it ends
too early are those that it opens and does not close. -/

namespace MonthlyModel.Formula

/-! ### Reading with a counter -/

/-- Why a reader with a counter stops: the text is at fault, or the counter is to be counted down from nought. -/
inductive Stop where
  | fault (e : FormulaError)
  | underflow
deriving DecidableEq

theorem length_lt_cons (t : Token) (ts : List Token) : ts.length < (t :: ts).length :=
  Nat.lt_succ_self _

/-- Reads a closing bracket and counts down. -/
def countClosing : (depth : Nat) → (ts : List Token) → Except Stop (Nat × Shorter ts)
  | 0, .close :: _ => .error .underflow
  | depth + 1, .close :: ts => .ok (depth, ⟨ts, length_lt_cons .close ts⟩)
  | depth, [] => .error (.fault (.malformed (.unclosed depth)))
  | _, t :: _ => .error (.fault (.malformed (.notClosing t)))

mutual

/-- Reads an operand with its signs, with the counter before and after it. -/
def countOperand (depth : Nat) (ts : List Token) : Except Stop (Expr × Nat × Shorter ts) :=
  match ts with
  | .operator .subtract :: ts => do
    let (e, depth, ⟨rest, h⟩) ← countOperand depth ts
    return (.negate e, depth, ⟨rest, by simp; omega⟩)
  | .operator .add :: ts => do
    let (e, depth, ⟨rest, h⟩) ← countOperand depth ts
    return (e, depth, ⟨rest, by simp; omega⟩)
  | .number x :: ts => .ok (.number x, depth, ⟨ts, length_lt_cons _ ts⟩)
  | .reference r :: ts => .ok (.reference r, depth, ⟨ts, length_lt_cons _ ts⟩)
  | .open :: ts => do
    let (e, depth, ⟨rest, h⟩) ← countExpression (depth + 1) 1 ts
    let (depth, ⟨rest, h'⟩) ← countClosing depth rest
    return (e, depth, ⟨rest, by simp; omega⟩)
  | .word name :: .open :: ts => do
    let some f := Function.ofName? name.toList
      | throw (.fault (.unknownFunction (String.ofList (Text.upperText name.toList))))
    let (es, depth, ⟨rest, h⟩) ← countArguments (depth + 1) ts
    let e ← (makeCall f es).mapError .fault
    return (e, depth, ⟨rest, by simp; omega⟩)
  | .word name :: _ => .error (.fault (.malformed (.unknownWord name)))
  | .close :: _ => .error (.fault (.malformed .unopened))
  | [] => .error (.fault (.malformed .unfinished))
  | t :: _ => .error (.fault (.malformed (.noOperand t)))
termination_by (ts.length, 0)
decreasing_by all_goals simp [Prod.lex_def]

def countExpression (depth least : Nat) (ts : List Token) : Except Stop (Expr × Nat × Shorter ts) := do
  let (e, depth, ⟨rest, h⟩) ← countOperand depth ts
  let (e, depth, ⟨rest, h'⟩) ← countClimb depth least e rest
  return (e, depth, ⟨rest, by omega⟩)
termination_by (ts.length, 1)
decreasing_by all_goals simp [Prod.lex_def] <;> omega

def countClimb (depth least : Nat) (left : Expr) (ts : List Token) :
    Except Stop (Expr × Nat × { rest : List Token // rest.length ≤ ts.length }) :=
  match ts with
  | .operator o :: more =>
    if o.strength < least then .ok (left, depth, ⟨.operator o :: more, Nat.le_refl _⟩)
    else do
      let (right, depth, ⟨rest, h⟩) ← countExpression depth o.rightStrength more
      let (e, depth, ⟨rest, h'⟩) ← countClimb depth least (.binary o left right) rest
      return (e, depth, ⟨rest, by simp; omega⟩)
  | ts => .ok (left, depth, ⟨ts, Nat.le_refl _⟩)
termination_by (ts.length, 0)
decreasing_by all_goals simp [Prod.lex_def] <;> omega

def countArguments (depth : Nat) (ts : List Token) : Except Stop (List Expr × Nat × Shorter ts) :=
  match ts with
  | .close :: ts => do
    let (depth, ⟨rest, h⟩) ← countClosing depth (.close :: ts)
    return ([], depth, ⟨rest, h⟩)
  | ts => do
    let (es, depth, ⟨rest, h⟩) ← countArgumentList depth ts
    let (depth, ⟨rest, h'⟩) ← countClosing depth rest
    return (es, depth, ⟨rest, by omega⟩)
termination_by (ts.length, 3)
decreasing_by all_goals simp [Prod.lex_def]

def countArgumentList (depth : Nat) (ts : List Token) : Except Stop (List Expr × Nat × Shorter ts) := do
  let (e, depth, ⟨rest, h⟩) ← countExpression depth 1 ts
  match rest, h with
  | .comma :: more, h =>
    have : more.length < ts.length := Nat.lt_of_succ_lt h
    let (es, depth, ⟨rest, h'⟩) ← countArgumentList depth more
    return (e :: es, depth, ⟨rest, by omega⟩)
  | rest, h => return ([e], depth, ⟨rest, h⟩)
termination_by (ts.length, 2)
decreasing_by all_goals simp [Prod.lex_def] <;> omega

end

def countTokens (ts : List Token) : Except Stop (Expr × Nat) := do
  match ← countExpression 0 1 ts with
  | (e, depth, ⟨[], _⟩) => return (e, depth)
  | (_, _, ⟨.close :: _, _⟩) => throw (.fault (.malformed .unopened))
  | (_, _, ⟨t :: _, _⟩) => throw (.fault (.malformed (.trailing t)))

/-- The expression that a text writes, and the counter at its end. -/
def parseCounting (cs : List Char) : Except Stop (Expr × Nat) :=
  if (body cs).all Text.isBlank then .error (.fault (.malformed .empty)) else countTokens (tokens (body cs))

/-! ### What the counter does -/

/-- What a reader without a counter reads, with a counter of brackets that are open after it. -/
def counted {α β : Type} (depth : Nat) : Except FormulaError (α × β) → Except Stop (α × Nat × β)
  | .ok (a, rest) => .ok (a, depth, rest)
  | .error e => .error (.fault e)

theorem countClosing_succ (depth : Nat) (ts : List Token) :
    countClosing (depth + 1) ts = ((closing (depth + 1) ts).map fun rest => (depth, rest)).mapError .fault := by
  cases ts with
  | nil => rfl
  | cons t ts => cases t <;> rfl

mutual

/-- What is read with a counter is what the parser reads, and as many brackets are open after it as before. -/
theorem countOperand_eq (depth : Nat) (ts : List Token) : countOperand depth ts = counted depth (operand depth ts) := by
  rw [countOperand.eq_def, operand.eq_def]
  cases ts with
  | nil => rfl
  | cons t ts =>
    cases t with
    | operator o =>
      cases o with
      | subtract | add =>
        dsimp only
        rw [countOperand_eq depth ts]
        cases operand depth ts <;> rfl
      | _ => rfl
    | «open» =>
      dsimp only
      rw [countExpression_eq (depth + 1) 1 ts]
      cases expression (depth + 1) 1 ts with
      | error e => rfl
      | ok v =>
        obtain ⟨e, rest, h⟩ := v
        change (countClosing (depth + 1) rest >>= _) = counted depth (closing (depth + 1) rest >>= _)
        rw [countClosing_succ]
        cases closing (depth + 1) rest <;> rfl
    | word name =>
      cases ts with
      | nil => rfl
      | cons t ts =>
        cases t with
        | «open» =>
          dsimp only
          cases Function.ofName? name.toList with
          | none => rfl
          | some f =>
            change (countArguments (depth + 1) ts >>= _) = counted depth (arguments (depth + 1) ts >>= _)
            rw [countArguments_eq depth ts]
            cases arguments (depth + 1) ts with
            | error e => rfl
            | ok v =>
              obtain ⟨es, rest, h⟩ := v
              change ((makeCall f es).mapError .fault >>= _) = counted depth (makeCall f es >>= _)
              cases makeCall f es <;> rfl
        | _ => rfl
    | _ => rfl
termination_by (ts.length, 0)
decreasing_by all_goals simp [Prod.lex_def]

theorem countExpression_eq (depth least : Nat) (ts : List Token) :
    countExpression depth least ts = counted depth (expression depth least ts) := by
  rw [countExpression.eq_def, expression.eq_def, countOperand_eq depth ts]
  cases operand depth ts with
  | error e => rfl
  | ok v =>
    obtain ⟨e, rest, h⟩ := v
    change (countClimb depth least e rest >>= _) = counted depth (climb depth least e rest >>= _)
    rw [countClimb_eq depth least e rest]
    cases climb depth least e rest <;> rfl
termination_by (ts.length, 1)
decreasing_by all_goals simp [Prod.lex_def] <;> omega

theorem countClimb_eq (depth least : Nat) (left : Expr) (ts : List Token) :
    countClimb depth least left ts = counted depth (climb depth least left ts) := by
  rw [countClimb.eq_def, climb.eq_def]
  cases ts with
  | nil => rfl
  | cons t more =>
    cases t with
    | operator o =>
      dsimp only
      split
      · rfl
      · rw [countExpression_eq depth o.rightStrength more]
        cases expression depth o.rightStrength more with
        | error e => rfl
        | ok v =>
          obtain ⟨right, rest, h⟩ := v
          change (countClimb depth least (.binary o left right) rest >>= _) =
            counted depth (climb depth least (.binary o left right) rest >>= _)
          rw [countClimb_eq depth least (.binary o left right) rest]
          cases climb depth least (.binary o left right) rest <;> rfl
    | _ => rfl
termination_by (ts.length, 0)
decreasing_by all_goals simp [Prod.lex_def] <;> omega

/-- The closing bracket of a call is among its arguments, its opening one is not. -/
theorem countArguments_eq (depth : Nat) (ts : List Token) :
    countArguments (depth + 1) ts = counted depth (arguments (depth + 1) ts) := by
  -- Unless the closing bracket comes at once, the arguments are a list with the bracket after it.
  have hlist : (countArgumentList (depth + 1) ts >>= fun (es, depth, ⟨rest, h⟩) => do
      let (depth, ⟨rest, h'⟩) ← countClosing depth rest
      return (es, depth, (⟨rest, by omega⟩ : Shorter ts))) =
      counted depth (argumentList (depth + 1) ts >>= fun (es, ⟨rest, h⟩) => do
        let ⟨rest, h'⟩ ← closing (depth + 1) rest
        return (es, (⟨rest, by omega⟩ : Shorter ts))) := by
    rw [countArgumentList_eq (depth + 1) ts]
    cases argumentList (depth + 1) ts with
    | error e => rfl
    | ok v =>
      obtain ⟨es, rest, h⟩ := v
      change (countClosing (depth + 1) rest >>= _) = counted depth (closing (depth + 1) rest >>= _)
      rw [countClosing_succ]
      cases closing (depth + 1) rest <;> rfl
  rw [countArguments.eq_def, arguments.eq_def]
  cases ts with
  | nil => exact hlist
  | cons t ts =>
    cases t with
    | close => rfl
    | _ => exact hlist
termination_by (ts.length, 3)
decreasing_by all_goals simp [Prod.lex_def]

theorem countArgumentList_eq (depth : Nat) (ts : List Token) :
    countArgumentList depth ts = counted depth (argumentList depth ts) := by
  rw [countArgumentList.eq_def, argumentList.eq_def, countExpression_eq depth 1 ts]
  cases expression depth 1 ts with
  | error e => rfl
  | ok v =>
    obtain ⟨e, rest, h⟩ := v
    cases rest with
    | nil => rfl
    | cons t more =>
      have hmore : more.length < ts.length := Nat.lt_of_succ_lt h
      cases t with
      | comma =>
        change (countArgumentList depth more >>= _) = counted depth (argumentList depth more >>= _)
        rw [countArgumentList_eq depth more]
        cases argumentList depth more <;> rfl
      | _ => rfl
termination_by (ts.length, 2)
decreasing_by all_goals simp [Prod.lex_def] <;> omega

end

theorem countTokens_eq (ts : List Token) :
    countTokens ts = ((ofTokens ts).map fun e => (e, 0)).mapError .fault := by
  rw [countTokens, ofTokens, countExpression_eq]
  cases expression 0 1 ts with
  | error e => rfl
  | ok v =>
    obtain ⟨e, rest, h⟩ := v
    cases rest with
    | nil => rfl
    | cons t rest => cases t <;> rfl

/-- A reader with a counter never counts down from nought, and is back there at the end of a formula. -/
theorem parseCounting_eq (cs : List Char) : parseCounting cs = ((parse cs).map fun e => (e, 0)).mapError .fault := by
  rw [parseCounting, parse]
  split
  · rfl
  · exact countTokens_eq _

/-! ### Brackets that are left open -/

mutual

/-- An expression closes the brackets that it opens. -/
theorem Derives.balanced {k : Nat} {ts : List Token} {e : Expr} :
    Derives k ts e → ts.count .open = ts.count .close
  | .number x => rfl
  | .reference r => rfl
  | .brackets he => by simp [he.balanced]
  | .call _ hes _ => by simp [hes.balanced]
  | .minus he => by simp [he.balanced]
  | .plus he => by simp [he.balanced]
  | .binary o hl hr => by simp [hl.balanced, hr.balanced]
  | .looser he => he.balanced

theorem DerivesAll.balanced {ts : List Token} {es : List Expr} : DerivesAll ts es → ts.count .open = ts.count .close
  | .nil => rfl
  | .one he => he.balanced
  | .cons he hes => by simp [he.balanced, hes.balanced]

end

/-- Some number of brackets is open after tokens: those that were open before, and those that the tokens open
without closing them. -/
def LeavesOpen (depth : Nat) (ts : List Token) (n : Nat) : Prop :=
  ts.count .open + depth = ts.count .close + n

namespace LeavesOpen

variable {depth n : Nat} {used ts : List Token} {t : Token}

theorem nil (depth : Nat) : LeavesOpen depth [] depth :=
  rfl

theorem append (hused : used.count .open = used.count .close) (h : LeavesOpen depth ts n) :
    LeavesOpen depth (used ++ ts) n := by
  rw [LeavesOpen] at h ⊢
  rw [List.count_append, List.count_append]
  omega

theorem cons (hopen : t ≠ .open) (hclose : t ≠ .close) (h : LeavesOpen depth ts n) : LeavesOpen depth (t :: ts) n := by
  rw [LeavesOpen, List.count_cons_of_ne hopen, List.count_cons_of_ne hclose]
  exact h

theorem bracket (h : LeavesOpen (depth + 1) ts n) : LeavesOpen depth (.open :: ts) n := by
  rw [LeavesOpen] at h ⊢
  rw [List.count_cons_self, List.count_cons_of_ne (by decide)]
  omega

end LeavesOpen

theorem eq_nil_of_closing {depth n : Nat} {ts : List Token}
    (h : closing depth ts = .error (.malformed (.unclosed n))) : ts = [] ∧ n = depth := by
  unfold closing at h
  split at h
  all_goals cases h
  exact ⟨rfl, rfl⟩

mutual

/-- Where an operand misses closing brackets, it misses at least one of its own. -/
theorem leavesOpen_of_operand {depth n : Nat} {ts : List Token}
    (h : operand depth ts = .error (.malformed (.unclosed n))) : depth < n ∧ LeavesOpen depth ts n := by
  unfold operand at h
  split at h
  · rcases bind_eq_error_iff.mp h with h | ⟨_, -, h⟩
    · obtain ⟨hlt, hopen⟩ := leavesOpen_of_operand h
      exact ⟨hlt, hopen.cons (by decide) (by decide)⟩
    · cases h
  · rcases bind_eq_error_iff.mp h with h | ⟨_, -, h⟩
    · obtain ⟨hlt, hopen⟩ := leavesOpen_of_operand h
      exact ⟨hlt, hopen.cons (by decide) (by decide)⟩
    · cases h
  · cases h
  · cases h
  · rcases bind_eq_error_iff.mp h with h | ⟨⟨e, rest⟩, hr, h⟩
    · obtain ⟨hlt, hopen⟩ := leavesOpen_of_expression h
      exact ⟨Nat.lt_of_succ_lt hlt, hopen.bracket⟩
    · rcases bind_eq_error_iff.mp h with h | ⟨_, -, h⟩
      · -- The text ends where this bracket is to be closed, and all that was opened after it is closed.
        obtain ⟨used, hu, he, -⟩ := derives_of_expression hr (by decide)
        obtain ⟨hrest, rfl⟩ := eq_nil_of_closing h
        rw [hu, hrest]
        exact ⟨Nat.lt_succ_self _, (LeavesOpen.append he.balanced (.nil _)).bracket⟩
      · cases h
  · split at h
    · rcases bind_eq_error_iff.mp h with h | ⟨⟨es, rest⟩, hr, h⟩
      · obtain ⟨hle, hopen⟩ := leavesOpen_of_arguments h
        exact ⟨hle, hopen.bracket.cons (by simp) (by simp)⟩
      · rcases bind_eq_error_iff.mp h with h | ⟨_, -, h⟩
        · unfold makeCall at h
          split at h <;> cases h
        · cases h
    · cases h
  all_goals cases h
termination_by (ts.length, 0)
decreasing_by all_goals subst_vars; simp [Prod.lex_def]

theorem leavesOpen_of_expression {depth least n : Nat} {ts : List Token}
    (h : expression depth least ts = .error (.malformed (.unclosed n))) : depth < n ∧ LeavesOpen depth ts n := by
  unfold expression at h
  rcases bind_eq_error_iff.mp h with h | ⟨⟨e, rest, hlt⟩, hr, h⟩
  · exact leavesOpen_of_operand h
  · obtain ⟨used, hu, he⟩ := derives_of_operand hr
    rcases bind_eq_error_iff.mp h with h | ⟨_, -, h⟩
    · obtain ⟨hlt, hopen⟩ := leavesOpen_of_climb h
      rw [hu]
      exact ⟨hlt, hopen.append he.balanced⟩
    · cases h
termination_by (ts.length, 1)
decreasing_by all_goals simp [Prod.lex_def] <;> omega

theorem leavesOpen_of_climb {depth least n : Nat} {left : Expr} {ts : List Token}
    (h : climb depth least left ts = .error (.malformed (.unclosed n))) : depth < n ∧ LeavesOpen depth ts n := by
  unfold climb at h
  split at h
  · next o more =>
    split at h
    · cases h
    · rcases bind_eq_error_iff.mp h with h | ⟨⟨right, rest, hlt⟩, hr, h⟩
      · obtain ⟨hlt, hopen⟩ := leavesOpen_of_expression h
        exact ⟨hlt, hopen.cons (by simp) (by simp)⟩
      · have hrest : rest.length < (Token.operator o :: more).length := Nat.lt_succ_of_lt hlt
        obtain ⟨used, hu, he, -⟩ := derives_of_expression hr o.rightStrength_le
        rcases bind_eq_error_iff.mp h with h | ⟨_, -, h⟩
        · obtain ⟨hlt, hopen⟩ := leavesOpen_of_climb h
          rw [hu]
          exact ⟨hlt, (hopen.append he.balanced).cons (by simp) (by simp)⟩
        · cases h
  · cases h
termination_by (ts.length, 0)
decreasing_by all_goals subst_vars; simp [Prod.lex_def] <;> omega

theorem leavesOpen_of_arguments {depth n : Nat} {ts : List Token}
    (h : arguments depth ts = .error (.malformed (.unclosed n))) : depth ≤ n ∧ LeavesOpen depth ts n := by
  unfold arguments at h
  split at h
  · cases h
  · rcases bind_eq_error_iff.mp h with h | ⟨⟨es, rest⟩, hr, h⟩
    · obtain ⟨hlt, hopen⟩ := leavesOpen_of_argumentList h
      exact ⟨Nat.le_of_lt hlt, hopen⟩
    · obtain ⟨used, hu, _, _, -, hes⟩ := derives_of_argumentList hr
      rcases bind_eq_error_iff.mp h with h | ⟨_, -, h⟩
      · obtain ⟨hrest, rfl⟩ := eq_nil_of_closing h
        rw [hu, hrest]
        exact ⟨Nat.le_refl _, .append hes.balanced (.nil _)⟩
      · cases h
termination_by (ts.length, 3)
decreasing_by all_goals subst_vars; simp [Prod.lex_def]

theorem leavesOpen_of_argumentList {depth n : Nat} {ts : List Token}
    (h : argumentList depth ts = .error (.malformed (.unclosed n))) : depth < n ∧ LeavesOpen depth ts n := by
  unfold argumentList at h
  rcases bind_eq_error_iff.mp h with h | ⟨⟨e, rest, hlt⟩, hr, h⟩
  · exact leavesOpen_of_expression h
  · obtain ⟨used, hu, he, -⟩ := derives_of_expression hr (by decide)
    cases rest with
    | nil => cases h
    | cons t more =>
      have hmore : more.length < ts.length := Nat.lt_of_succ_lt hlt
      cases t with
      | comma =>
        rcases bind_eq_error_iff.mp h with h | ⟨_, -, h⟩
        · obtain ⟨hlt, hopen⟩ := leavesOpen_of_argumentList h
          rw [hu]
          exact ⟨hlt, (hopen.cons (by decide) (by decide)).append he.balanced⟩
        · cases h
      | _ => cases h
termination_by (ts.length, 2)
decreasing_by all_goals subst_vars; simp [Prod.lex_def] <;> omega

end

/-- Tokens that end inside of brackets leave those open that they open and do not close. -/
theorem leavesOpen_of_ofTokens {ts : List Token} {n : Nat} (h : ofTokens ts = .error (.malformed (.unclosed n))) :
    0 < n ∧ LeavesOpen 0 ts n := by
  unfold ofTokens at h
  rcases bind_eq_error_iff.mp h with h | ⟨⟨e, rest, hlt⟩, -, h⟩
  · exact leavesOpen_of_expression h
  · cases rest with
    | nil => cases h
    | cons t rest => cases t <;> cases h

theorem count_tokens_body {t : Token} (ht : t ≠ .operator .equal) (cs : List Char) :
    (tokens (body cs)).count t = (tokens cs).count t := by
  have hskip : Option.guard (· == t) (Token.operator .equal) = none := by simpa [Option.guard] using Ne.symm ht
  have hcount (ts : List Token) : ts.count t = (ts.filterMap (Option.guard (· == t))).length := by
    rw [List.filterMap_eq_filter]
    exact List.countP_eq_length_filter
  rw [hcount, hcount, filterMap_tokens_body hskip]

/-- A reader with a counter of open brackets reads what the parser reads: it never counts down from nought, and is
back there at the end of a formula. Where the parser misses brackets at the end of a text, it misses at least one,
and as many as the text has more opening brackets than closing ones. -/
theorem counter_exact (cs : List Char) :
    parseCounting cs = ((parse cs).map fun e => (e, 0)).mapError .fault ∧ parseCounting cs ≠ .error .underflow ∧
      ∀ n, parse cs = .error (.malformed (.unclosed n)) →
        1 ≤ n ∧ (tokens cs).count .open = (tokens cs).count .close + n := by
  have heq := parseCounting_eq cs
  refine ⟨heq, ?_, fun n h => ?_⟩
  · rw [heq]
    cases parse cs <;> nofun
  have htokens : ofTokens (tokens (body cs)) = .error (.malformed (.unclosed n)) := by
    unfold parse at h
    split at h
    · cases h
    · exact h
  obtain ⟨hpos, hopen⟩ := leavesOpen_of_ofTokens htokens
  rw [LeavesOpen, count_tokens_body (by decide), count_tokens_body (by decide)] at hopen
  exact ⟨hpos, hopen⟩

theorem counter_exact_nested :
    parse "= CUMSUM((R4".toList = .error (.malformed (.unclosed 2)) ∧
      (tokens "= CUMSUM((R4".toList).count .open = (tokens "= CUMSUM((R4".toList).count .close + 2 := by
  have hparse : parse "= CUMSUM((R4".toList = .error (.malformed (.unclosed 2)) := by cbv
  exact ⟨hparse, ((counter_exact _).2.2 2 hparse).2⟩

end MonthlyModel.Formula
