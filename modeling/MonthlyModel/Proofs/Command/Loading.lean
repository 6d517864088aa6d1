import MonthlyModel.Command.Run
import MonthlyModel.Proofs.Model.Loading

/-! Models that commands load.

A command reads a model file and a file of inputs if it is given one, and recomputes. All of this adds to a
new model and takes nothing away, so the time constants that the model begins with stay bound. -/

namespace MonthlyModel

/-! ### Histories that take nothing away -/

/-- Whether an operation binds a series, adds a calculation or recomputes everything. -/
def Operation.Adds : Operation → Prop
  | .setInput _ _ | .setSeries _ _ | .addCalculation _ | .recomputeAll => True
  | _ => False

namespace SeriesMap

variable {m : SeriesMap Float} {t : Timeline}

theorem contains_bindConstants (h : t.length = m.periods) (k : TimeConstant) :
    (m.bindConstants t).contains (.timeConstant k.name) = true := by
  have hlookup : ((TimeConstant.all.map (constantBinding (α := Float) t)).lookup (.timeConstant k.name)).isSome = true := by
    cases k <;> rfl
  rw [contains, get?_bindConstants h, Option.isSome_or, hlookup, Bool.or_true]

end SeriesMap

namespace Model

variable {m m' : Model} {r : Reference} {values : Series Float}

/-- All time constants are bound, to whatever series. -/
def BindsConstants (m : Model) : Prop :=
  ∀ k : TimeConstant, m.series.contains (.timeConstant k.name) = true

theorem contains_setSeries (h : m.setSeries r values = .ok m') {r' : Reference} (hr : m.series.contains r' = true) :
    m'.series.contains r' = true := by
  unfold setSeries at h
  split at h
  · cases h
    exact hr
  · split at h
    · next series hseries =>
      cases h
      obtain ⟨hl, rfl⟩ := SeriesMap.insert_eq_ok_iff.mp hseries
      change ((m.series.bind r values hl).get? r').isSome = true
      rw [SeriesMap.get?_bind]
      split
      · rfl
      · exact hr
    · cases h

theorem series_addCalculation {c : Calculation} (h : m.addCalculation c = .ok m') : m'.series = m.series := by
  unfold addCalculation at h
  split at h
  · cases h
  · cases h
    rfl

theorem bindsConstants_new (t : Timeline) (o : ModelOptions) : (new t o).BindsConstants := by
  intro k
  dsimp only [new, SeriesMap.ofTimeline]
  exact SeriesMap.contains_bindConstants rfl k

theorem bindsConstants_ofSeries {t : Timeline} {s : SeriesMap Float} {o : ModelOptions} (h : ofSeries t s o = .ok m) :
    m.BindsConstants := by
  unfold Model.ofSeries at h
  split at h
  · next series hseries =>
    obtain rfl := Except.ok.inj h
    unfold SeriesMap.withConstants at hseries
    split at hseries
    · next hl =>
      obtain rfl := Except.ok.inj hseries
      intro k
      dsimp only
      exact SeriesMap.contains_bindConstants hl k
    · cases hseries
  · cases h

theorem BindsConstants.recomputeAll (hm : m.BindsConstants) : m.recomputeAll.1.BindsConstants := by
  have hseries : m.recomputeAll.1.series = m.series :=
    (foldl_step_sameInputs false m.graph.evaluationOrder m.graph.evaluationOrder.order _).series
  intro k
  rw [hseries]
  exact hm k

theorem BindsConstants.apply {o : Operation} (hm : m.BindsConstants) (ho : o.Adds) (h : o.apply m = .ok m') :
    m'.BindsConstants := by
  intro k
  cases o with
  | setInput key values =>
    obtain ⟨r, -, h⟩ := bind_eq_ok_iff.mp h
    exact contains_setSeries h (hm k)
  | setSeries r values => exact contains_setSeries h (hm k)
  | addCalculation c =>
    have hseries : m'.series = m.series := series_addCalculation h
    rw [hseries]
    exact hm k
  | recomputeAll =>
    cases h
    exact hm.recomputeAll k
  | _ => exact absurd ho id

theorem Reached.bindsConstants (h : Reached Operation.Adds m) : m.BindsConstants :=
  h.induct bindsConstants_new bindsConstants_ofSeries .apply

/-! ### Model files -/

theorem addCalculation_eq_after {m : Model} {c : Calculation} (h : ¬ m.contains c.id = true) :
    ModelFile.addCalculation m c = .ok (m.after (.addCalculation c)) := by
  rw [ModelFile.addCalculation, addCalculation, dif_neg h, after_of_ok (o := .addCalculation c) (dif_neg h)]

theorem reached_of_build {file : ModelFile} (h : file.build = .ok m) : Reached Operation.Adds m := by
  obtain ⟨t, -, h⟩ := bind_eq_ok_iff.mp h
  obtain ⟨bound, hbound, h⟩ := bind_eq_ok_iff.mp h
  refine foldlM_induct (fun {m c m'} hm h => ?_) (foldlM_induct (fun {m input m'} hm h => ?_) (.new t .standard) hbound) h
  · unfold ModelFile.addCalculation at h
    split at h
    · next m₁ hadd =>
      cases h
      exact after_of_ok (o := .addCalculation c) hadd ▸ hm.after trivial
    · cases h
  · unfold ModelFile.bindInput at h
    split at h
    · next m₁ hset =>
      cases h
      exact after_of_ok (o := .setInput input.1 input.2) hset ▸ hm.after trivial
    · cases h

end Model

namespace Command

variable {fs : Files} {path : String} {inputs : Option String} {m : Model} {fiscalEnd : Option Nat}

def bound (fs : Files) (m : Model) : Option String → Except Failure Model
  | none => .ok m
  | some path => bindInputs m path (fs.read path)

/-- The model that a command goes on with, and the last month of its fiscal year. -/
def loaded (fs : Files) (path : String) (inputs : Option String) : Except Failure (Model × Option Nat) := do
  let file ← readModelFile path (fs.read path)
  let m ← bound fs (← buildModel file) inputs
  return (m.recomputeAll.1, file.timeline.fiscalEnd)

theorem run_settle (m : Model) (next : Model → Program) (o : Outcome) :
    ∃ messages, (settle m next).run o = (next m.recomputeAll.1).run { o with messages := messages } := by
  unfold settle
  dsimp only
  split
  · exact ⟨_, rfl⟩
  · exact ⟨o.messages, rfl⟩

/-- Loading ends with a failure, or goes on with the model after it may have told of errors. -/
theorem run_load (path : String) (inputs : Option String) (next : Model → Option Nat → Program) (o : Outcome) :
    (∃ f, loaded o.files path inputs = .error f ∧ (load path inputs next).run o = (fail f).run o) ∨
      ∃ m fiscalEnd messages, loaded o.files path inputs = .ok (m, fiscalEnd) ∧
        (load path inputs next).run o = (next m fiscalEnd).run { o with messages := messages } := by
  rw [load, Program.run, loaded]
  cases readModelFile path (o.files.read path) with
  | error f => exact .inl ⟨f, rfl, rfl⟩
  | ok file =>
    dsimp only [orFail, bind, Except.bind]
    cases buildModel file with
    | error f => exact .inl ⟨f, rfl, rfl⟩
    | ok built =>
      -- With the files in memory, a file of inputs is read where the program goes on.
      have hinputs : Program.run o (match inputs with
          | none => settle built (next · file.timeline.fiscalEnd)
          | some path => .read path fun content =>
            orFail (bindInputs built path content) fun m => settle m (next · file.timeline.fiscalEnd)) =
          (orFail (bound o.files built inputs) fun m => settle m (next · file.timeline.fiscalEnd)).run o := by
        cases inputs <;> rfl
      refine hinputs ▸ ?_
      dsimp only
      cases bound o.files built inputs with
      | error f => exact .inl ⟨f, rfl, rfl⟩
      | ok m =>
        obtain ⟨messages, hrun⟩ := run_settle m (next · file.timeline.fiscalEnd) o
        exact .inr ⟨_, _, messages, rfl, hrun⟩

theorem reached_of_bindInputs {m' : Model} {content : Except FileError (List UInt8)} (hm : Model.Reached Operation.Adds m)
    (h : bindInputs m path content = .ok m') : Model.Reached Operation.Adds m' := by
  unfold bindInputs at h
  dsimp only at h
  split at h
  · cases h
  · cases h
  · split at h
    · next hload =>
      cases h
      exact Model.Reached.loadInputs hm (fun _ _ => trivial) hload
    · cases h

theorem reached_of_loaded (h : loaded fs path inputs = .ok (m, fiscalEnd)) :
    ∃ before, Model.Reached Operation.Adds before ∧ before.recomputeAll.1 = m := by
  obtain ⟨file, -, h⟩ := bind_eq_ok_iff.mp h
  obtain ⟨built, hbuild, h⟩ := bind_eq_ok_iff.mp h
  obtain ⟨before, hbefore, h⟩ := bind_eq_ok_iff.mp h
  cases h
  refine ⟨before, ?_, rfl⟩
  have hbuilt : Model.Reached Operation.Adds built := Model.reached_of_build (mapError_eq_ok_iff.mp hbuild)
  cases inputs with
  | none =>
    obtain rfl := Except.ok.inj hbefore
    exact hbuilt
  | some path => exact reached_of_bindInputs hbuilt hbefore

/-! ### Files in memory -/

theorem fromUTF8?_bytes (s : String) : String.fromUTF8? ⟨s.toUTF8.data.toList.toArray⟩ = some s := by
  have h : s.toUTF8.IsValidUTF8 := s.isValidUTF8
  rw [String.fromUTF8?]
  change (if h : s.toUTF8.IsValidUTF8 then some (String.fromUTF8 s.toUTF8 h) else none) = _
  rw [dif_pos h]
  rfl

theorem read_singleton (path : String) (bytes : List UInt8) : Files.read [(pathParts path, bytes)] path = .ok bytes := by
  rw [Files.read, List.lookup_cons_self]

theorem readModelFile_text {path text : String} {file : ModelFile} (h : ModelFile.parse? text = some file) :
    readModelFile path (.ok text.toUTF8.data.toList) = .ok file := by
  rw [readModelFile]
  dsimp only
  rw [fromUTF8?_bytes]
  dsimp only
  rw [h]

end Command

end MonthlyModel
