import Mathlib.Data.List.Forall2
import MonthlyModel.Proofs.Formula.Expr
import MonthlyModel.Proofs.Outcome
import MonthlyModel.Sheet.Conversion

/-! The rules by which expressions are converted into cell formulas.

The conversion fails in many ways and succeeds in few. Here are the ways in which it succeeds, one rule
for each, so that what holds of all converted formulas is shown by induction over the rules. -/

namespace MonthlyModel.Sheet

open MonthlyModel.Formula (Expr Function Operator)

variable {s : Surroundings} {e e' : Expr} {position : Nat} {f : CellFormula} {k : Int}

/-! ### Parts -/

theorem numberFormula_eq_ok_iff {x : Float} : numberFormula x = .ok f ↔ x.isFinite = true ∧ f = .number x := by
  unfold numberFormula
  split
  · next h => simp [h, eq_comm]
  · next h => simp [h]

theorem row_eq_ok_iff {r : Reference} {row : CellRow} : s.row r = .ok row ↔ s.row? r = some row := by
  unfold Surroundings.row
  cases s.row? r <;> simp

theorem writtenOffset_eq_ok (h : writtenOffset e = .ok k) :
    ∃ m, k = saturate m ∧ e.asNumber?.bind Decimal.whole? = some m := by
  unfold writtenOffset at h
  split at h
  · next m hm =>
    cases h
    exact ⟨m, rfl, hm⟩
  · cases h

theorem saturate_eq (n : Int) : saturate n = max (-9223372036854775808) (min n 9223372036854775807) :=
  rfl

theorem landing_eq_before_iff : s.landing position k = .before ↔ saturate (position - k) < 0 := by
  unfold Surroundings.landing
  dsimp only
  split
  · next h => exact iff_of_true rfl h
  · next h => split <;> exact iff_of_false nofun h

theorem landing_eq_on_iff {target : Nat} : s.landing position k = .on target ↔
    saturate (position - k) = target ∧ ∀ n ∈ s.limit, s.firstColumn + target ≤ n := by
  unfold Surroundings.landing
  dsimp only
  split
  · next h => exact iff_of_false nofun fun ⟨ht, _⟩ => by omega
  · next h =>
    rw [← Int.toNat_of_nonneg (Int.not_lt.mp h), Int.toNat_natCast, Int.natCast_inj]
    split
    · next hpast =>
      refine iff_of_false nofun ?_
      rintro ⟨rfl, hlimit⟩
      cases hn : s.limit with
      | none => simp [hn] at hpast
      | some n =>
        rw [hn] at hpast
        exact absurd (hlimit n hn) (Nat.not_le.mpr (by simpa using hpast))
    · next hwithin =>
      rw [Landing.on.injEq]
      refine ⟨?_, And.left⟩
      rintro rfl
      refine ⟨rfl, fun n hn => ?_⟩
      rw [hn] at hwithin
      simpa using hwithin

theorem landing_eq_past_iff : s.landing position k = .past ↔
    0 ≤ saturate (position - k) ∧ ∃ n ∈ s.limit, n < s.firstColumn + (saturate (position - k)).toNat := by
  unfold Surroundings.landing
  dsimp only
  split
  · next h => exact iff_of_false nofun fun ⟨h', _⟩ => absurd h (Int.not_lt.mpr h')
  · next h =>
    cases hn : s.limit <;> simp [Int.not_lt.mp h]

/-! ### Rules -/

/-- The running sums that have a formula. -/
inductive SumsUp (s : Surroundings) : Expr → Nat → CellFormula → Prop where
  | reference {r : Reference} {position : Nat} {range : RowRange} (h : s.range r position = .ok range) :
    SumsUp s (.reference r) position (.sum range)
  | product {a b : Reference} {position : Nat} {ra rb : RowRange} (ha : s.range a position = .ok ra)
    (hb : s.range b position = .ok rb) :
    SumsUp s (.binary .multiply (.reference a) (.reference b)) position (.sumOfProducts ra rb)
  | sum {a b : Reference} {position : Nat} {ra rb : RowRange} (ha : s.range a position = .ok ra)
    (hb : s.range b position = .ok rb) :
    SumsUp s (.binary .add (.reference a) (.reference b)) position (.binary .add (.sum ra) (.sum rb))
  | number {e : Expr} {position : Nat} {f : CellFormula} {x : Float} (hx : e.asNumber? = some x)
    (h : countedFormula s x position = .ok f) : SumsUp s e position f

/-- An expression has the value that another one had some months before. -/
inductive Shifts : Expr → Expr → Int → Prop where
  | prevval (e : Expr) : Shifts (.call .prevval [e]) e 1
  | shift {e o : Expr} {k : Int} (h : o.asNumber?.bind Decimal.whole? = some k) : Shifts (.call .shift [e, o]) e k

/-- The formulas that expressions are converted to. -/
inductive Converts (s : Surroundings) : Expr → Nat → CellFormula → Prop where
  | number {x : Float} {position : Nat} {f : CellFormula} (h : numberFormula x = .ok f) :
    Converts s (.number x) position f
  | reference {r : Reference} {position : Nat} {cell : Cell} (h : s.cell r position = .ok cell) :
    Converts s (.reference r) position (.cell cell)
  | negate {e : Expr} {position : Nat} {f : CellFormula} (h : Converts s e position f) :
    Converts s (.negate e) position (.negate f)
  | binary (o : Operator) {l r : Expr} {position : Nat} {f g : CellFormula} (hl : Converts s l position f)
    (hr : Converts s r position g) : Converts s (.binary o l r) position (.binary o f g)
  | call {f : Function} {es : List Expr} {position : Nat} {fs : List CellFormula} (hf : f.isTemporal = false)
    (htakes : f.takes es.length = true) (hlength : es.length = fs.length)
    (h : ∀ {e g}, (e, g) ∈ es.zip fs → Converts s e position g) : Converts s (.call f es) position (.call f fs)
  | cumsum {e : Expr} {position : Nat} {f : CellFormula} (h : SumsUp s e position f) :
    Converts s (.call .cumsum [e]) position f
  | cumprod {r : Reference} {position : Nat} {range : RowRange} (h : s.range r position = .ok range) :
    Converts s (.call .cumprod [.reference r]) position (.product range)
  | count {r : Reference} {position : Nat} {range : RowRange} (h : s.range r position = .ok range) :
    Converts s (.call .count [.reference r]) position (.countNonzero range)
  | prevsumFirst {e : Expr} {f : CellFormula} (h : numberFormula 0 = .ok f) : Converts s (.call .prevsum [e]) 0 f
  | prevsum {e : Expr} {position : Nat} {f : CellFormula} (h : SumsUp s e position f) :
    Converts s (.call .prevsum [e]) (position + 1) f
  | before {e e' : Expr} {k : Int} {position : Nat} {f : CellFormula} (hs : Shifts e' e k)
    (hl : s.landing position (saturate k) = .before) (h : numberFormula 0 = .ok f) : Converts s e' position f
  | on {e e' : Expr} {k : Int} {position target : Nat} {f : CellFormula} (hs : Shifts e' e k)
    (hl : s.landing position (saturate k) = .on target) (h : Converts s e target f) : Converts s e' position f

theorem sumsUp_of_runningSum (h : runningSum s e position = .ok f) : SumsUp s e position f := by
  unfold runningSum at h
  split at h
  · obtain ⟨range, hrange, rfl⟩ := map_eq_ok_iff.mp h
    exact .reference hrange
  · obtain ⟨ra, ha, h⟩ := bind_eq_ok_iff.mp h
    obtain ⟨rb, hb, h⟩ := bind_eq_ok_iff.mp h
    cases h
    exact .product ha hb
  · obtain ⟨ra, ha, h⟩ := bind_eq_ok_iff.mp h
    obtain ⟨rb, hb, h⟩ := bind_eq_ok_iff.mp h
    cases h
    exact .sum ha hb
  · split at h
    · next x hx => exact .number hx h
    · cases h

theorem ofRange_eq_ok {g : Function} {make : RowRange → CellFormula} (h : ofRange s g make e position = .ok f) :
    ∃ r range, e = .reference r ∧ s.range r position = .ok range ∧ f = make range := by
  unfold ofRange at h
  cases e with
  | reference r =>
    obtain ⟨range, hrange, rfl⟩ := map_eq_ok_iff.mp h
    exact ⟨r, range, rfl, hrange, rfl⟩
  | _ => cases h

theorem forall₂_of_convertAll {es : List Expr} {fs : List CellFormula} (h : convertAll s es position = .ok fs) :
    List.Forall₂ (fun e f => convertExpr s e position = .ok f) es fs := by
  induction es generalizing fs with
  | nil =>
    rw [convertAll] at h
    cases h
    exact .nil
  | cons e es ih =>
    rw [convertAll] at h
    obtain ⟨g, hg, h⟩ := bind_eq_ok_iff.mp h
    obtain ⟨gs, hgs, h⟩ := bind_eq_ok_iff.mp h
    cases h
    exact .cons hg (ih hgs)

/-- The arguments of a call that are converted one by one. -/
theorem converts_call {g : Function} {es : List Expr} (hg : g.isTemporal = false) (htakes : g.takes es.length = true)
    (ih : ∀ e ∈ es, ∀ {position f}, convertExpr s e position = .ok f → Converts s e position f)
    (h : (do return CellFormula.call g (← convertAll s es position)) = .ok f) : Converts s (.call g es) position f := by
  obtain ⟨fs, hfs, h⟩ := bind_eq_ok_iff.mp h
  cases h
  obtain ⟨hlength, hzip⟩ := List.forall₂_iff_zip.mp (forall₂_of_convertAll hfs)
  exact .call hg htakes hlength fun hmem => ih _ (List.of_mem_zip hmem).1 (hzip hmem)

theorem converts_shifted (hs : Shifts e' e k) (ih : ∀ {position f}, convertExpr s e position = .ok f → Converts s e position f)
    (h : convertShifted s e position (saturate k) = .ok f) : Converts s e' position f := by
  rw [convertShifted] at h
  split at h
  · next hl => exact .before hs hl h
  · cases h
  · next target hl => exact .on hs hl (ih h)

theorem converts_of_call {g : Function} {es : List Expr} (htakes : g.takes es.length = true)
    (ih : ∀ e ∈ es, ∀ {position f}, convertExpr s e position = .ok f → Converts s e position f)
    (h : convertExpr s (.call g es) position = .ok f) : Converts s (.call g es) position f := by
  cases g with
  | abs | max | min =>
    rw [convertExpr] at h
    exact converts_call rfl htakes ih h
  | shift =>
    obtain ⟨e, o, rfl⟩ := List.length_eq_two.mp (Function.eq_of_takes htakes rfl rfl)
    rw [convertExpr] at h
    obtain ⟨k, hk, h⟩ := bind_eq_ok_iff.mp h
    obtain ⟨m, rfl, hm⟩ := writtenOffset_eq_ok hk
    exact converts_shifted (.shift hm) (ih e (by simp)) h
  | prevval =>
    obtain ⟨e, rfl⟩ := List.length_eq_one_iff.mp (Function.eq_of_takes htakes rfl rfl)
    rw [convertExpr] at h
    exact converts_shifted (.prevval e) (ih e (by simp)) h
  | cumsum =>
    obtain ⟨e, rfl⟩ := List.length_eq_one_iff.mp (Function.eq_of_takes htakes rfl rfl)
    rw [convertExpr] at h
    exact .cumsum (sumsUp_of_runningSum h)
  | cumprod =>
    obtain ⟨e, rfl⟩ := List.length_eq_one_iff.mp (Function.eq_of_takes htakes rfl rfl)
    rw [convertExpr] at h
    obtain ⟨r, range, rfl, hrange, rfl⟩ := ofRange_eq_ok h
    exact .cumprod hrange
  | count =>
    obtain ⟨e, rfl⟩ := List.length_eq_one_iff.mp (Function.eq_of_takes htakes rfl rfl)
    rw [convertExpr] at h
    obtain ⟨r, range, rfl, hrange, rfl⟩ := ofRange_eq_ok h
    exact .count hrange
  | prevsum =>
    obtain ⟨e, rfl⟩ := List.length_eq_one_iff.mp (Function.eq_of_takes htakes rfl rfl)
    rw [convertExpr] at h
    cases position with
    | zero => exact .prevsumFirst h
    | succ position => exact .prevsum (sumsUp_of_runningSum h)
  | cumsumByYear | cumprodByYear =>
    rw [convertExpr] at h
    cases h

/-- What an expression is converted to follows from the rules. -/
theorem converts_of_convertExpr (he : e.Applied) (h : convertExpr s e position = .ok f) : Converts s e position f := by
  induction e using Expr.induct generalizing position f with
  | number x =>
    rw [convertExpr] at h
    exact .number h
  | reference r =>
    rw [convertExpr] at h
    obtain ⟨cell, hcell, rfl⟩ := map_eq_ok_iff.mp h
    exact .reference hcell
  | negate e ih =>
    rw [convertExpr] at h
    obtain ⟨g, hg, h⟩ := bind_eq_ok_iff.mp h
    cases h
    exact .negate (ih he.of_negate hg)
  | binary o l r ihl ihr =>
    rw [convertExpr] at h
    obtain ⟨f, hl, h⟩ := bind_eq_ok_iff.mp h
    obtain ⟨g, hr, h⟩ := bind_eq_ok_iff.mp h
    cases h
    exact .binary o (ihl he.of_binary.1 hl) (ihr he.of_binary.2 hr)
  | call g es ih =>
    obtain ⟨htakes, hes⟩ := he.of_call
    exact converts_of_call htakes (fun e hmem => ih e hmem (hes e hmem)) h

end MonthlyModel.Sheet
