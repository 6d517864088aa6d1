import MonthlyModel.Proofs.Formula.Expr
import MonthlyModel.Proofs.Outcome
import MonthlyModel.Sheet.Conversion

/-! Where conversions fail.

A conversion fails at a part of the expression, if at all: at one that has no formula, or at a reference
that has no row. -/

namespace MonthlyModel.Sheet

open Formula (Expr Function)

variable {s : Surroundings} {rs : List Reference} {e : Expr} {r : Reference} {position : Nat}

/-- If a conversion fails, then for a part without a formula or for one of some references, which has no row. -/
def FailsAt {β : Type} (s : Surroundings) (rs : List Reference) (x : Except ExportError β) : Prop :=
  ∀ error, x = .error error → (∃ o, error = .unconvertible o) ∨ ∃ r ∈ rs, s.row? r = none ∧ error = .noRow r

namespace FailsAt

variable {β γ : Type} {x : Except ExportError β}

theorem ok (b : β) : FailsAt s rs (.ok b) :=
  nofun

theorem unconvertible (o : Obstacle) : FailsAt s rs (.error (.unconvertible o) : Except ExportError β) := by
  rintro _ ⟨⟩
  exact .inl ⟨o, rfl⟩

theorem bind {g : β → Except ExportError γ} (h : FailsAt s rs x) (hg : ∀ b, FailsAt s rs (g b)) : FailsAt s rs (x >>= g) := by
  intro error herror
  rcases bind_eq_error_iff.mp herror with herror | ⟨b, -, herror⟩
  · exact h error herror
  · exact hg b error herror

theorem map {g : β → γ} (h : FailsAt s rs x) : FailsAt s rs (x.map g) :=
  fun error herror => h error (map_eq_error_iff.mp herror)

end FailsAt

theorem failsAt_numberFormula (x : Float) : FailsAt s rs (numberFormula x) := by
  unfold numberFormula
  split
  · exact .ok _
  · exact .unconvertible _

theorem failsAt_row (h : r ∈ rs) : FailsAt s rs (s.row r) := by
  unfold Surroundings.row
  split
  · exact .ok _
  · next hrow =>
    rintro _ ⟨⟩
    exact .inr ⟨r, h, hrow, rfl⟩

theorem failsAt_range (h : r ∈ rs) (position : Nat) : FailsAt s rs (s.range r position) :=
  (failsAt_row h).map

theorem failsAt_runningSum (h : e.references ⊆ rs) (position : Nat) : FailsAt s rs (runningSum s e position) := by
  unfold runningSum
  split
  · exact (failsAt_range (h (by simp [Expr.references])) _).map
  · refine (failsAt_range (h ?_) _).bind fun ra => (failsAt_range (h ?_) _).bind fun rb => .ok _ <;> simp [Expr.references]
  · refine (failsAt_range (h ?_) _).bind fun ra => (failsAt_range (h ?_) _).bind fun rb => .ok _ <;> simp [Expr.references]
  · split
    · unfold countedFormula
      dsimp only
      split
      · exact .ok _
      · exact (failsAt_numberFormula _).map
    · exact .unconvertible _

theorem mem_references_of_asReference? (h : e.asReference? = some r) : r ∈ e.references := by
  cases e <;> cases h
  exact List.mem_singleton_self _

theorem failsAt_ofRange (h : e.references ⊆ rs) (g : Function) (make : RowRange → CellFormula) (position : Nat) :
    FailsAt s rs (ofRange s g make e position) := by
  unfold ofRange
  split
  · next hr => exact (failsAt_range (h (mem_references_of_asReference? hr)) _).map
  · exact .unconvertible _

theorem failsAt_convertAll {es : List Expr} (ih : ∀ e ∈ es, FailsAt s rs (convertExpr s e position)) :
    FailsAt s rs (convertAll s es position) := by
  induction es with
  | nil =>
    rw [convertAll]
    exact .ok _
  | cons e es ihs =>
    obtain ⟨he, hes⟩ := List.forall_mem_cons.mp ih
    rw [convertAll]
    exact he.bind fun f => (ihs hes).bind fun fs => .ok _

theorem failsAt_convertShifted (ih : ∀ position, FailsAt s rs (convertExpr s e position)) (position : Nat) (k : Int) :
    FailsAt s rs (convertShifted s e position k) := by
  rw [convertShifted]
  split
  · exact failsAt_numberFormula 0
  · exact .unconvertible _
  · next target _ => exact ih target

theorem failsAt_writtenOffset (e : Expr) : FailsAt s rs (writtenOffset e) := by
  unfold writtenOffset
  split
  · exact .ok _
  · exact .unconvertible _

theorem failsAt_call_nil (s : Surroundings) (rs : List Reference) (g : Function) (position : Nat) :
    FailsAt s rs (convertExpr s (.call g []) position) := by
  cases g with
  | abs | max | min =>
    rw [convertExpr, convertAll]
    exact .ok _
  | cumsumByYear | cumprodByYear =>
    rw [convertExpr]
    exact .unconvertible _
  | _ =>
    rw [convertExpr]
    · exact .unconvertible _
    all_goals
      intros
      contradiction

theorem failsAt_call {g : Function} {es : List Expr} (h : ∀ e ∈ es, e.references ⊆ rs)
    (ih : ∀ e ∈ es, ∀ position, FailsAt s rs (convertExpr s e position)) (position : Nat) :
    FailsAt s rs (convertExpr s (.call g es) position) := by
  cases es with
  | nil => exact failsAt_call_nil s rs g position
  | cons e es =>
    have hreferences := h e List.mem_cons_self
    have hfirst := ih e List.mem_cons_self
    cases g with
    | abs | max | min =>
      rw [convertExpr]
      exact (failsAt_convertAll fun e he => ih e he position).bind fun fs => .ok _
    | cumsumByYear | cumprodByYear =>
      rw [convertExpr]
      exact .unconvertible _
    | cumsum =>
      rw [convertExpr]
      exact failsAt_runningSum hreferences position
    | cumprod | count =>
      rw [convertExpr]
      exact failsAt_ofRange hreferences _ _ position
    | prevsum =>
      rw [convertExpr]
      split
      · exact failsAt_numberFormula 0
      · exact failsAt_runningSum hreferences (position - 1)
    | prevval =>
      rw [convertExpr]
      exact failsAt_convertShifted hfirst position 1
    -- A shift without an offset has no formula.
    | shift =>
      cases es with
      | nil =>
        rw [convertExpr]
        · exact .unconvertible _
        · rintro _ _ _ ⟨⟩
      | cons o es =>
        rw [convertExpr]
        exact (failsAt_writtenOffset o).bind fun k => failsAt_convertShifted hfirst position k

/-- The conversion of an expression fails at a part without a formula, or at a reference of it without a row. -/
theorem failsAt_convertExpr (h : e.references ⊆ rs) (position : Nat) : FailsAt s rs (convertExpr s e position) := by
  induction e using Expr.induct generalizing position with
  | number x =>
    rw [convertExpr]
    exact failsAt_numberFormula x
  | reference r =>
    rw [convertExpr]
    exact (failsAt_row (h (List.mem_singleton_self r))).map.map
  | negate e ih =>
    rw [convertExpr]
    exact (ih h position).bind fun f => .ok _
  | binary o l r ihl ihr =>
    obtain ⟨hl, hr⟩ := List.append_subset.mp h
    rw [convertExpr]
    exact (ihl hl position).bind fun f => (ihr hr position).bind fun g => .ok _
  | call g es ih =>
    rw [Expr.references_call] at h
    have hes : ∀ e ∈ es, e.references ⊆ rs := fun e he r hr => h (List.mem_flatMap.mpr ⟨e, he, hr⟩)
    exact failsAt_call hes (fun e he => ih e he (hes e he)) position

end MonthlyModel.Sheet
