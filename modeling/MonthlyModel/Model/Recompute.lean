import MonthlyModel.Model.Edit

/-!
Recomputing a model. Pending calculations are evaluated in dependency order, each once; members of a
cycle have zeros and an error instead. A calculation whose memo still fits keeps its result.
-/

namespace MonthlyModel

open Formula (Evaluation)

/-- What a recompute did. -/
structure RecomputeStats where
  /-- The calculations of the model. -/
  calculations : Nat
  /-- The formulas that were evaluated. -/
  evaluated : Nat
  /-- The results that were kept because of a memo. -/
  reused : Nat
  /-- The pending calculations that ended with an error. -/
  errors : Nat
  /-- The cycles with a pending member. -/
  cycles : Nat
deriving DecidableEq, Repr

/-- Counts the error of a result, if there is one. -/
def RecomputeStats.countError (s : RecomputeStats) (error : Option FormulaError) : RecomputeStats :=
  { s with errors := s.errors + error.toList.length }

/-- Whether two results have the same error and equal values. -/
def sameResult (a b : Evaluation Float) : Bool :=
  a.error = b.error && sameSeries a.values b.values

namespace Model

/-- The revision of what a reference is read from. Calculations are read as calculations even where
an input is bound under their name. -/
def revision? (m : Model) (r : Reference) : Option Nat :=
  match r.calculation? with
  | some id => (m.entry? id).map (·.revision)
  | none => m.inputRevisions[r]?

/-- What evaluating a calculation now would read. -/
def memo (m : Model) (e : Entry) : Memo :=
  ⟨e.calculation.formula, e.references.map fun r => (r, m.revision? r)⟩

/-- Keeps a result. Its revision changes only if the result does. -/
def store (m : Model) (id : CalculationId) (memo : Option Memo) (result : Evaluation Float) : Model :=
  -- An equal result leaves the memos of those that read it valid.
  if (m.entry? id).any (sameResult ·.result result) then m.modify id fun e => { e with memo := memo }
  else
    { m with clock := m.clock + 1 }.modify id fun e =>
      { e with result := result, revision := m.clock + 1, memo := memo }

/-- A model on the way through a recompute, with what was done. -/
structure Progress where
  model : Model
  stats : RecomputeStats

/-- Brings a calculation up to date, given the cycle that it is a member of. -/
def Progress.update (p : Progress) (memoizes : Bool) (e : Entry) :
    Option (List CalculationId) → Progress
  | some cycle =>
    -- Nothing was read, so there is no memo: the calculation is evaluated once it is on no cycle any more.
    let result := .failed p.model.periods (.circular cycle)
    ⟨p.model.store e.id none result, p.stats.countError result.error⟩
  | none =>
    let memo := p.model.memo e
    if memoizes && e.memo = some memo then
      ⟨p.model, { p.stats with reused := p.stats.reused + 1 }.countError e.result.error⟩
    else
      let result := Formula.evaluateText p.model.context e.calculation.formula.toList
      ⟨p.model.store e.id (some memo) result,
        { p.stats with evaluated := p.stats.evaluated + 1 }.countError result.error⟩

/-- Brings a calculation up to date if it is pending. -/
def Progress.step (memoizes : Bool) (o : Dependency.EvaluationOrder) (p : Progress)
    (id : CalculationId) : Progress :=
  match p.model.entry? id with
  | some e => if p.model.pending.contains id then p.update memoizes e (o.cycleOf? id) else p
  | none => p

/-- Brings all pending calculations up to date. -/
def run (m : Model) (memoizes : Bool) : Model × RecomputeStats :=
  let o := m.graph.evaluationOrder
  let stats : RecomputeStats := {
    calculations := m.entries.length
    evaluated := 0
    reused := 0
    errors := 0
    cycles := o.cycles.countP (·.any m.pending.contains) }
  let p := o.order.foldl (Progress.step memoizes o) ⟨m, stats⟩
  ({ p.model with pending := ∅ }, p.stats)

/-- Evaluates all calculations, whatever their memos say. -/
def recomputeAll (m : Model) : Model × RecomputeStats :=
  { m with pending := m.pending.insertMany m.ids }.run false

/-- Makes calculations pending, with all that is downstream of them, and recomputes. All of them must
exist. -/
def recompute (m : Model) (changed : List CalculationId) : Except ModelError (Model × RecomputeStats) := do
  changed.forM fun id => discard (m.entry id)
  let m := m.markPending changed
  return if m.options.recomputesAll then m.recomputeAll else m.run m.options.memoizes

end Model

end MonthlyModel
