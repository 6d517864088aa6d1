import MonthlyModel.Proofs.Formula.Grammar
import MonthlyModel.Proofs.Formula.Names

/-! Parsing by the productions of the grammar.

The grammar is written out with one symbol for each level: comparisons over sums over products over
powers, signs tighter than all operators. It derives what the levels of operators derive, and the
parser reads tokens as an expression exactly if they are generated as that expression: what follows an
expression, and does not go on with it, is left alone. So no tokens are generated as two expressions. -/

namespace MonthlyModel.Formula

/-! ### Productions -/

inductive Symbol where
  | comparison
  | sum
  | product
  | power
  | signed
  | primary

mutual

/-- The tokens are generated from the symbol, as the expression. -/
inductive Generates : Symbol → List Token → Expr → Prop where
  | compare {o : Operator} {ls rs : List Token} {l r : Expr}
    (ho : o ∈ [Operator.equal, .less, .atMost, .greater, .atLeast]) (hl : Generates .comparison ls l)
    (hr : Generates .sum rs r) : Generates .comparison (ls ++ .operator o :: rs) (.binary o l r)
  | ofSum {ts : List Token} {e : Expr} (he : Generates .sum ts e) : Generates .comparison ts e
  | add {o : Operator} {ls rs : List Token} {l r : Expr} (ho : o ∈ [Operator.add, .subtract])
    (hl : Generates .sum ls l) (hr : Generates .product rs r) :
    Generates .sum (ls ++ .operator o :: rs) (.binary o l r)
  | ofProduct {ts : List Token} {e : Expr} (he : Generates .product ts e) : Generates .sum ts e
  | multiply {o : Operator} {ls rs : List Token} {l r : Expr} (ho : o ∈ [Operator.multiply, .divide])
    (hl : Generates .product ls l) (hr : Generates .power rs r) :
    Generates .product (ls ++ .operator o :: rs) (.binary o l r)
  | ofPower {ts : List Token} {e : Expr} (he : Generates .power ts e) : Generates .product ts e
  | raise {ls rs : List Token} {l r : Expr} (hl : Generates .signed ls l) (hr : Generates .power rs r) :
    Generates .power (ls ++ .operator .power :: rs) (.binary .power l r)
  | ofSigned {ts : List Token} {e : Expr} (he : Generates .signed ts e) : Generates .power ts e
  | minus {ts : List Token} {e : Expr} (he : Generates .signed ts e) :
    Generates .signed (.operator .subtract :: ts) (.negate e)
  | plus {ts : List Token} {e : Expr} (he : Generates .signed ts e) : Generates .signed (.operator .add :: ts) e
  | ofPrimary {ts : List Token} {e : Expr} (he : Generates .primary ts e) : Generates .signed ts e
  | number (x : Float) : Generates .primary [.number x] (.number x)
  | reference (r : Reference) : Generates .primary [.reference r] (.reference r)
  | brackets {ts : List Token} {e : Expr} (he : Generates .comparison ts e) :
    Generates .primary (.open :: ts ++ [.close]) e
  | call {name : String} {f : Function} {ts : List Token} {es : List Expr}
    (hname : Text.upperText name.toList = f.name.toList) (hes : GeneratesAll ts es)
    (hfewest : f.fewest ≤ es.length) (hmost : ∀ n ∈ f.most?, es.length ≤ n) :
    Generates .primary (.word name :: .open :: ts ++ [.close]) (.call f es)

/-- The tokens are generated as the expressions, divided by commas. -/
inductive GeneratesAll : List Token → List Expr → Prop where
  | nil : GeneratesAll [] []
  | one {ts : List Token} {e : Expr} (he : Generates .comparison ts e) : GeneratesAll ts [e]
  | cons {ts us : List Token} {e e' : Expr} {es : List Expr} (he : Generates .comparison ts e)
    (hes : GeneratesAll us (e' :: es)) : GeneratesAll (ts ++ .comma :: us) (e :: e' :: es)

end

/-- The level of what a symbol generates. -/
def Symbol.level : Symbol → Nat
  | .comparison => 1
  | .sum => 2
  | .product => 3
  | .power => 4
  | .signed => 5
  | .primary => 6

theorem ofName?_eq_some_iff {cs : List Char} {f : Function} :
    Function.ofName? cs = some f ↔ Text.upperText cs = f.name.toList := by
  constructor
  · intro h
    have := List.find?_some h
    exact (beq_iff_eq.mp this).symm
  · intro h
    rw [Function.ofName?, h]
    cases f <;> rfl

/-- The operators of a symbol have its level, and their operands those of their symbols. -/
theorem Derives.operation {o : Operator} {i j k : Nat} {ls rs : List Token} {l r : Expr}
    (ho : o.leftStrength = i ∧ o.rightStrength = j ∧ o.strength = k) (hl : Derives i ls l) (hr : Derives j rs r) :
    Derives k (ls ++ .operator o :: rs) (.binary o l r) := by
  obtain ⟨rfl, rfl, rfl⟩ := ho
  exact .binary o hl hr

theorem comparison_strengths : ∀ o ∈ [Operator.equal, .less, .atMost, .greater, .atLeast],
    o.leftStrength = 1 ∧ o.rightStrength = 2 ∧ o.strength = 1 := by
  decide

theorem sum_strengths : ∀ o ∈ [Operator.add, .subtract],
    o.leftStrength = 2 ∧ o.rightStrength = 3 ∧ o.strength = 2 := by
  decide

theorem product_strengths : ∀ o ∈ [Operator.multiply, .divide],
    o.leftStrength = 3 ∧ o.rightStrength = 4 ∧ o.strength = 3 := by
  decide

mutual

theorem Generates.derives {s : Symbol} {ts : List Token} {e : Expr} :
    Generates s ts e → Derives s.level ts e
  | .compare ho hl hr => .operation (comparison_strengths _ ho) hl.derives hr.derives
  | .ofSum he => he.derives.looser
  | .add ho hl hr => .operation (sum_strengths _ ho) hl.derives hr.derives
  | .ofProduct he => he.derives.looser
  | .multiply ho hl hr => .operation (product_strengths _ ho) hl.derives hr.derives
  | .ofPower he => he.derives.looser
  | .raise hl hr => .operation ⟨rfl, rfl, rfl⟩ hl.derives hr.derives
  | .ofSigned he => he.derives.looser
  | .minus he => he.derives.minus
  | .plus he => he.derives.plus
  | .ofPrimary he => he.derives.looser
  | .number x => .number x
  | .reference r => .reference r
  | .brackets he => he.derives.brackets
  | .call hname hes hfewest hmost =>
    .call (ofName?_eq_some_iff.mpr hname) hes.derives (Function.takes_iff.mpr ⟨hfewest, hmost⟩)

theorem GeneratesAll.derives {ts : List Token} {es : List Expr} : GeneratesAll ts es → DerivesAll ts es
  | .nil => .nil
  | .one he => .one he.derives
  | .cons he hes => .cons he.derives hes.derives

end

/-- What is derived at a level is generated from its symbol; there is none above that of primaries. -/
def GeneratesAt (k : Nat) (ts : List Token) (e : Expr) : Prop :=
  k ≤ 6 ∧ ∀ s : Symbol, s.level = k → Generates s ts e

theorem Symbol.eq_of_level {s s' : Symbol} (h : s.level = s'.level) : s = s' := by
  cases s <;> cases s' <;> first | rfl | cases h

theorem Generates.at {s : Symbol} {ts : List Token} {e : Expr} (h : Generates s ts e) :
    GeneratesAt s.level ts e := by
  refine ⟨by cases s <;> decide, fun s' hs => ?_⟩
  rwa [Symbol.eq_of_level hs]

theorem GeneratesAt.looser {k : Nat} {ts : List Token} {e : Expr} (h : GeneratesAt (k + 1) ts e) :
    GeneratesAt k ts e := by
  obtain ⟨hk, hs⟩ := h
  refine ⟨Nat.le_of_succ_le hk, fun s h => ?_⟩
  subst h
  cases s with
  | comparison => exact .ofSum (hs .sum rfl)
  | sum => exact .ofProduct (hs .product rfl)
  | product => exact .ofPower (hs .power rfl)
  | power => exact .ofSigned (hs .signed rfl)
  | signed => exact .ofPrimary (hs .primary rfl)
  | primary => exact absurd hk (by decide)

theorem GeneratesAt.binary (o : Operator) {ls rs : List Token} {l r : Expr} (hl : GeneratesAt o.leftStrength ls l)
    (hr : GeneratesAt o.rightStrength rs r) : GeneratesAt o.strength (ls ++ .operator o :: rs) (.binary o l r) := by
  cases o with
  | equal | less | atMost | greater | atLeast =>
    exact (Generates.compare (by simp) (hl.2 .comparison rfl) (hr.2 .sum rfl)).at
  | add | subtract => exact (Generates.add (by simp) (hl.2 .sum rfl) (hr.2 .product rfl)).at
  | multiply | divide => exact (Generates.multiply (by simp) (hl.2 .product rfl) (hr.2 .power rfl)).at
  | power => exact (Generates.raise (hl.2 .signed rfl) (hr.2 .power rfl)).at

mutual

theorem Derives.generates {k : Nat} {ts : List Token} {e : Expr} : Derives k ts e → GeneratesAt k ts e
  | .number x => (Generates.number x).at
  | .reference r => (Generates.reference r).at
  | .brackets he => (Generates.brackets (he.generates.2 .comparison rfl)).at
  | .call hn hes hf => by
    obtain ⟨hfewest, hmost⟩ := Function.takes_iff.mp hf
    exact (Generates.call (ofName?_eq_some_iff.mp hn) hes.generates hfewest hmost).at
  | .minus he => (Generates.minus (he.generates.2 .signed rfl)).at
  | .plus he => (Generates.plus (he.generates.2 .signed rfl)).at
  | .binary o hl hr => .binary o hl.generates hr.generates
  | .looser he => he.generates.looser

theorem DerivesAll.generates {ts : List Token} {es : List Expr} : DerivesAll ts es → GeneratesAll ts es
  | .nil => .nil
  | .one he => .one (he.generates.2 .comparison rfl)
  | .cons he hes => .cons (he.generates.2 .comparison rfl) hes.generates

end

theorem generates_iff_derives {ts : List Token} {e : Expr} : Generates .comparison ts e ↔ Derives 1 ts e :=
  ⟨Generates.derives, fun h => h.generates.2 .comparison rfl⟩

/-! ### What readers give -/

/-- A reader gives a result and leaves tokens. -/
def Gives {α : Type} {P : List Token → Prop} (outcome : Except FormulaError (α × Subtype P)) (a : α)
    (rest : List Token) : Prop :=
  ∃ h, outcome = .ok (a, ⟨rest, h⟩)

variable {depth least k : Nat} {ts us rest : List Token} {e e' l r : Expr} {es : List Expr}

theorem gives_expression (ho : Gives (operand depth ts) l us) (hc : Gives (climb depth least l us) e rest) :
    Gives (expression depth least ts) e rest := by
  obtain ⟨hlt, ho⟩ := ho
  obtain ⟨hle, hc⟩ := hc
  refine ⟨Nat.lt_of_le_of_lt hle hlt, ?_⟩
  unfold expression
  rw [ho]
  dsimp only [bind, Except.bind]
  rw [hc]
  rfl

/-- No operator that binds tightly enough follows. -/
def Ends (least : Nat) (ts : List Token) : Prop :=
  ∀ o rest, ts = .operator o :: rest → o.strength < least

theorem gives_climb_end (h : Ends least ts) : Gives (climb depth least e ts) e ts := by
  unfold climb
  split
  · next o more =>
    rw [if_pos (h o more rfl)]
    exact ⟨Nat.le_refl _, rfl⟩
  · exact ⟨Nat.le_refl _, rfl⟩

theorem gives_climb_operator {o : Operator} (hl : least ≤ o.strength)
    (hr : Gives (expression depth o.rightStrength ts) r us) (hc : Gives (climb depth least (.binary o l r) us) e rest) :
    Gives (climb depth least l (.operator o :: ts)) e rest := by
  obtain ⟨hlt, hr⟩ := hr
  obtain ⟨hle, hc⟩ := hc
  refine ⟨Nat.le_trans hle (Nat.le_of_lt (Nat.lt_succ_of_lt hlt)), ?_⟩
  unfold climb
  rw [if_neg (Nat.not_lt.mpr hl), hr]
  dsimp only [bind, Except.bind]
  rw [hc]
  rfl

theorem gives_minus (h : Gives (operand depth ts) e rest) :
    Gives (operand depth (.operator .subtract :: ts)) (.negate e) rest := by
  obtain ⟨hlt, h⟩ := h
  refine ⟨Nat.lt_succ_of_lt hlt, ?_⟩
  unfold operand
  rw [h]
  rfl

theorem gives_plus (h : Gives (operand depth ts) e rest) : Gives (operand depth (.operator .add :: ts)) e rest := by
  obtain ⟨hlt, h⟩ := h
  refine ⟨Nat.lt_succ_of_lt hlt, ?_⟩
  unfold operand
  rw [h]
  rfl

theorem gives_brackets (h : Gives (expression (depth + 1) 1 ts) e (.close :: rest)) :
    Gives (operand depth (.open :: ts)) e rest := by
  obtain ⟨hlt, h⟩ := h
  refine ⟨Nat.lt_succ_of_lt (Nat.lt_of_succ_lt hlt), ?_⟩
  unfold operand
  dsimp only
  rw [h]
  rfl

theorem gives_call {name : String} {f : Function} (hn : Function.ofName? name.toList = some f)
    (hf : f.takes es.length = true) (h : Gives (arguments (depth + 1) ts) es rest) :
    Gives (operand depth (.word name :: .open :: ts)) (.call f es) rest := by
  obtain ⟨hlt, h⟩ := h
  refine ⟨Nat.lt_succ_of_lt (Nat.lt_succ_of_lt hlt), ?_⟩
  unfold operand
  dsimp only
  rw [hn]
  dsimp only
  rw [h]
  dsimp only [bind, Except.bind]
  rw [makeCall_eq_ok_iff.mpr ⟨hf, rfl⟩]
  rfl

theorem gives_arguments (hts : ts.head? ≠ some .close) (h : Gives (argumentList depth ts) es (.close :: rest)) :
    Gives (arguments depth ts) es rest := by
  obtain ⟨hlt, h⟩ := h
  refine ⟨Nat.lt_of_succ_lt hlt, ?_⟩
  unfold arguments
  split
  · exact absurd rfl hts
  · rw [h]
    rfl

theorem gives_argumentList_last (h : Gives (expression depth 1 ts) e (.close :: rest)) :
    Gives (argumentList depth ts) [e] (.close :: rest) := by
  obtain ⟨hlt, h⟩ := h
  refine ⟨hlt, ?_⟩
  unfold argumentList
  rw [h]
  rfl

theorem gives_argumentList_cons (h : Gives (expression depth 1 ts) e (.comma :: us))
    (hes : Gives (argumentList depth us) es rest) : Gives (argumentList depth ts) (e :: es) rest := by
  obtain ⟨hlt, h⟩ := h
  obtain ⟨hlt', hes⟩ := hes
  refine ⟨Nat.lt_trans hlt' (Nat.lt_of_succ_lt hlt), ?_⟩
  unfold argumentList
  rw [h]
  dsimp only [bind, Except.bind]
  rw [hes]
  rfl

/-! ### What is derived is read -/

theorem Operator.lt_rightStrength_of_le {o o' : Operator} (h : o'.leftStrength ≤ o.strength) :
    o'.strength < o.rightStrength := by
  cases o <;> cases o' <;> revert h <;> decide

theorem Operator.strength_le_leftStrength (o : Operator) : o.strength ≤ o.leftStrength := by
  cases o <;> decide

theorem Operator.strength_le_rightStrength (o : Operator) : o.strength ≤ o.rightStrength := by
  cases o <;> decide

/-- Whatever follows it, an operand is read as its expression. What is derived at a level is read as an
    expression and gone on with, unless an operator that binds it more tightly follows. -/
structure ReadAt (k : Nat) (ts : List Token) (e : Expr) : Prop where
  operand : 5 ≤ k → ∀ depth rest, Gives (operand depth (ts ++ rest)) e rest
  expression : ∀ {depth least rest e' rest'}, least ≤ k → Stops k rest →
    Gives (climb depth least e rest) e' rest' → Gives (expression depth least (ts ++ rest)) e' rest'

namespace ReadAt

theorem of_operand (h : ∀ depth rest, Gives (Formula.operand depth (ts ++ rest)) e rest) : ReadAt k ts e :=
  ⟨fun _ => h, fun _ _ hc => gives_expression (h _ _) hc⟩

/-- An expression that no operator follows is read whole. -/
theorem whole (h : ReadAt 1 ts e) (hrest : ∀ o, rest.head? ≠ some (.operator o)) (depth : Nat) :
    Gives (Formula.expression depth 1 (ts ++ rest)) e rest := by
  have hne : ∀ o us, rest ≠ .operator o :: us := by
    rintro o us rfl
    exact hrest o rfl
  refine h.expression (Nat.le_refl _) (fun o us hs => absurd hs (hne o us)) ?_
  exact gives_climb_end fun o us hs => absurd hs (hne o us)

theorem binary (o : Operator) (hl : ReadAt o.leftStrength ts l) (hr : ReadAt o.rightStrength us r) :
    ReadAt o.strength (ts ++ .operator o :: us) (.binary o l r) := by
  refine ⟨fun h => absurd h (by cases o <;> decide), fun {depth least rest e' rest'} hle hs hc => ?_⟩
  -- The right operand ends where the whole does.
  have hends : Ends o.rightStrength rest := fun o' us h => Operator.lt_rightStrength_of_le (hs o' us h)
  have hstops : Stops o.rightStrength rest := fun o' us h =>
    Nat.le_trans (hs o' us h) o.strength_le_rightStrength
  have hright : Gives (Formula.expression depth o.rightStrength (us ++ rest)) r rest :=
    hr.expression (Nat.le_refl _) hstops (gives_climb_end hends)
  rw [List.append_assoc, List.cons_append]
  refine hl.expression (Nat.le_trans hle o.strength_le_leftStrength) ?_ (gives_climb_operator hle hright hc)
  rintro o' us ⟨⟩
  exact Nat.le_refl _

theorem looser (h : ReadAt (k + 1) ts e) : ReadAt k ts e where
  operand hk := h.operand (Nat.le_succ_of_le hk)
  expression hle hs hc := h.expression (Nat.le_succ_of_le hle) (fun o us ho => Nat.le_succ_of_le (hs o us ho)) hc

end ReadAt

theorem Derives.head_ne_close {k : Nat} {ts : List Token} {e : Expr} :
    Derives k ts e → ∀ rest, (ts ++ rest).head? ≠ some .close
  | .number x | .reference r | .brackets he | .call hn hes hf | .minus he | .plus he => fun rest h => by
    simp at h
  | .binary o hl hr => fun rest => by
    rw [List.append_assoc]
    exact hl.head_ne_close _
  | .looser he => he.head_ne_close

/-- Arguments are read up to the bracket that closes them, if their list is. -/
theorem DerivesAll.gives_arguments (hes : DerivesAll ts es)
    (hlist : es ≠ [] → ∀ depth rest, Gives (argumentList depth (ts ++ .close :: rest)) es (.close :: rest))
    (depth : Nat) (rest : List Token) : Gives (arguments depth (ts ++ .close :: rest)) es rest := by
  cases hes with
  | nil =>
    unfold arguments
    exact ⟨by simp, rfl⟩
  | one he => exact Formula.gives_arguments (he.head_ne_close _) (hlist (by simp) depth rest)
  | cons he _ =>
    refine Formula.gives_arguments ?_ (hlist (by simp) depth rest)
    rw [List.append_assoc]
    exact he.head_ne_close _

mutual

theorem Derives.readAt {k : Nat} {ts : List Token} {e : Expr} : Derives k ts e → ReadAt k ts e
  | .number x => .of_operand fun depth rest => by
    unfold Formula.operand
    exact ⟨by simp, rfl⟩
  | .reference r => .of_operand fun depth rest => by
    unfold Formula.operand
    exact ⟨by simp, rfl⟩
  | .brackets he => .of_operand fun depth rest => by
    rw [List.append_assoc]
    exact gives_brackets (he.readAt.whole (by simp) _)
  | .call hn hes hf => .of_operand fun depth rest => by
    rw [List.append_assoc]
    exact gives_call hn hf (hes.gives_arguments hes.gives_argumentList _ _)
  | .minus he => .of_operand fun depth rest => gives_minus (he.readAt.operand (Nat.le_refl _) _ _)
  | .plus he => .of_operand fun depth rest => gives_plus (he.readAt.operand (Nat.le_refl _) _ _)
  | .binary o hl hr => .binary o hl.readAt hr.readAt
  | .looser he => he.readAt.looser

theorem DerivesAll.gives_argumentList {ts : List Token} {es : List Expr} : DerivesAll ts es → es ≠ [] →
    ∀ depth rest, Gives (argumentList depth (ts ++ .close :: rest)) es (.close :: rest)
  | .nil => fun h => absurd rfl h
  | .one he => fun _ depth rest => gives_argumentList_last (he.readAt.whole (by simp) _)
  | .cons he hes => fun _ depth rest => by
    rw [List.append_assoc]
    exact gives_argumentList_cons (he.readAt.whole (by simp) _) (hes.gives_argumentList (by simp) _ _)

end

/-! ### The parser and the grammar -/

theorem ofTokens_of_derives {ts : List Token} {e : Expr} (h : Derives 1 ts e) : ofTokens ts = .ok e := by
  have hwhole : Gives (expression 0 1 (ts ++ [])) e [] := h.readAt.whole (by simp) 0
  rw [List.append_nil] at hwhole
  obtain ⟨hlt, hread⟩ := hwhole
  unfold ofTokens
  rw [hread]
  rfl

theorem ofTokens_eq_ok_iff {ts : List Token} {e : Expr} : ofTokens ts = .ok e ↔ Generates .comparison ts e := by
  rw [generates_iff_derives]
  exact ⟨derives_of_ofTokens, ofTokens_of_derives⟩

theorem ofTokens_nil : ofTokens [] = .error (.malformed .unfinished) := by
  unfold ofTokens expression operand
  rfl

theorem parse_eq_ofTokens_iff {cs : List Char} {e : Expr} :
    parse cs = .ok e ↔ ofTokens (tokens (body cs)) = .ok e := by
  refine ⟨ofTokens_of_parse, fun h => ?_⟩
  unfold parse
  split
  · next hblank =>
    have hfront : Text.trimFront (body cs) = [] := List.dropWhile_eq_nil_iff.mpr (List.all_eq_true.mp hblank)
    rw [tokens, lexemes_eq_nil hfront, List.map_nil, ofTokens_nil] at h
    cases h
  · exact h

/-- The parser accepts exactly what the grammar generates from a comparison, with the expression that it
    is generated as; there is at most one. All other tokens are an error. -/
theorem parse_iff_generates :
    (∀ ts e, ofTokens ts = .ok e ↔ Generates .comparison ts e) ∧
      (∀ ts, (¬ ∃ e, Generates .comparison ts e) → ∃ error, ofTokens ts = .error error) ∧
      (∀ ts e e', Generates .comparison ts e → Generates .comparison ts e' → e = e') ∧
      ∀ cs e, parse cs = .ok e ↔ Generates .comparison (tokens (body cs)) e := by
  refine ⟨fun ts e => ofTokens_eq_ok_iff, fun ts hnone => ?_, fun ts e e' h h' => ?_, fun cs e => ?_⟩
  · cases hread : ofTokens ts with
    | error error => exact ⟨error, rfl⟩
    | ok e => exact absurd ⟨e, ofTokens_eq_ok_iff.mp hread⟩ hnone
  · exact Except.ok.inj ((ofTokens_eq_ok_iff.mpr h).symm.trans (ofTokens_eq_ok_iff.mpr h'))
  · rw [parse_eq_ofTokens_iff, ofTokens_eq_ok_iff]

end MonthlyModel.Formula
