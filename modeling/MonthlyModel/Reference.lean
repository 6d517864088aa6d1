import MonthlyModel.Decimal.Digits

/-!
References: the names by which formulas and files call series. A reference is a time constant with a
name of its own, such as `T.DiM`, or a numbered series of one of nine families, such as `V1`,
`C1.10`, `F3.Start` or `R17`. The text of a reference and its reader stand here side by side.
-/

namespace MonthlyModel

/-- The families of series. -/
inductive Family where
  | input
  | series
  | constant
  | flag
  | index
  | lookup
  | timeConstant
  | moduleOutput
  | calculation
  | group
deriving DecidableEq, Repr

namespace Family

/-- All families, in the order of their references. -/
def all : List Family :=
  [.input, .series, .constant, .flag, .index, .lookup, .timeConstant, .moduleOutput, .calculation, .group]

/-- The place of a family in the order of references. -/
def rank : Family → Nat
  | .input => 0
  | .series => 1
  | .constant => 2
  | .flag => 3
  | .index => 4
  | .lookup => 5
  | .timeConstant => 6
  | .moduleOutput => 7
  | .calculation => 8
  | .group => 9

/-- What the text of a reference starts with. -/
def lead : Family → String
  | .input => "V"
  | .series => "S"
  | .constant => "C"
  | .flag => "F"
  | .index => "I"
  | .lookup => "L"
  | .timeConstant => "T."
  | .moduleOutput => "M"
  | .calculation => "R"
  | .group => "G"

/-- The family of a letter. Time constants have no letter of their own. -/
def ofLetter? : Char → Option Family
  | 'V' => some .input
  | 'S' => some .series
  | 'C' => some .constant
  | 'F' => some .flag
  | 'I' => some .index
  | 'L' => some .lookup
  | 'M' => some .moduleOutput
  | 'R' => some .calculation
  | 'G' => some .group
  | _ => none

/-- The family in a sentence. -/
def description : Family → String
  | .input => "input"
  | .series => "series"
  | .constant => "constant"
  | .flag => "flag"
  | .index => "index"
  | .lookup => "lookup"
  | .timeConstant => "time constant"
  | .moduleOutput => "module output"
  | .calculation => "calculation"
  | .group => "group"

/-- The family in a listing. -/
def title : Family → String
  | .input => "Input"
  | .series => "Series"
  | .constant => "Constant"
  | .flag => "Flag"
  | .index => "Index"
  | .lookup => "Lookup"
  | .timeConstant => "TimeConstant"
  | .moduleOutput => "ModuleOutput"
  | .calculation => "Calculation"
  | .group => "Group"

/-- The least number of path segments. -/
def fewest : Family → Nat
  | .constant | .moduleOutput => 2
  | .timeConstant => 0
  | _ => 1

/-- The greatest number of path segments. -/
def most : Family → Nat
  | .input | .series | .constant | .moduleOutput => 2
  | .lookup => 3
  | .timeConstant => 0
  | _ => 1

end Family

/-- One end of the run of a flag. -/
inductive FlagEdge where
  | start
  | finish
deriving DecidableEq, Repr

/-- How references write an end of a run. -/
def FlagEdge.text : FlagEdge → String
  | .start => "Start"
  | .finish => "End"

/-- The number of a calculation, which other formulas write as `R` and the number. -/
abbrev CalculationId := UInt32

/-- The name of a series. -/
structure Reference where
  family : Family
  path : List UInt32
  name : Option String
  edge : Option FlagEdge
deriving DecidableEq, Repr

/-- What keeps a text or a path from being a reference. -/
inductive ReferenceError where
  | malformed (text : String)
  | segmentCount (family : Family) (count : Nat)
  /-- A time constant has a name and no path. -/
  | unnamedConstant
deriving DecidableEq, Repr

/-- The error as a user reads it. -/
def ReferenceError.message : ReferenceError → String
  | .malformed text => s!"Invalid reference key: {text}"
  | .segmentCount f n =>
    s!"Invalid reference key: {f.description} expects {f.fewest}..={f.most} segments, got {n}"
  | .unnamedConstant =>
    "Invalid reference key: time constants are built with ReferenceKey::time_constant"

namespace Reference

/-- The reference to a calculation. -/
def calculation (id : CalculationId) : Reference :=
  ⟨.calculation, [id], none, none⟩

/-- The reference to a time constant. -/
def timeConstant (name : String) : Reference :=
  ⟨.timeConstant, [], some name, none⟩

/-- The calculation that a reference names. -/
def calculation? (r : Reference) : Option CalculationId :=
  if r.family = .calculation then r.path.head? else none

/-- The reference of a family and a path, of which the family limits the length. -/
def ofPath (family : Family) (path : List UInt32) : Except ReferenceError Reference :=
  if family = .timeConstant then .error .unnamedConstant
  else if family.fewest ≤ path.length ∧ path.length ≤ family.most then .ok ⟨family, path, none, none⟩
  else .error (.segmentCount family path.length)

/-! ### Text -/

/-- The path of a reference, its segments divided by points. -/
def pathText (path : List UInt32) : List Char :=
  [ '.' ].intercalate (path.map fun n => Decimal.digits n.toNat)

/-- The characters of a reference: its family, its path and its edge. -/
def chars (r : Reference) : List Char :=
  r.family.lead.toList ++ (r.name.getD "").toList ++ pathText r.path ++
    match r.edge with
    | none => []
    | some e => '.' :: e.text.toList

/-- The text of a reference. -/
def text (r : Reference) : String :=
  String.ofList r.chars

instance : ToString Reference :=
  ⟨text⟩

/-! ### Reading -/

/-- The parts of a text between its points; there is always a first one. -/
def segments : List Char → List (List Char)
  | [] => [[]]
  | c :: cs =>
    if c = '.' then [] :: segments cs
    else
      match segments cs with
      | [] => [[c]]
      | s :: rest => (c :: s) :: rest

/-- A segment of a path: at least one digit, and a number below `2 ^ 32`. -/
def segment? (cs : List Char) : Option UInt32 :=
  if cs.isEmpty || !cs.all Decimal.isDigit then none
  else
    let n := Decimal.ofDigits cs
    if n < UInt32.size then some (UInt32.ofNat n) else none

/-- The name of a time constant starts with a letter and goes on with letters, digits and
underscores, all of ASCII. -/
def isConstantName : List Char → Bool
  | [] => false
  | c :: cs => c.isAlpha && cs.all fun d => d.isAlphanum || d = '_'

/-- The edge of a flag that the last of several segments names, and the segments before it. -/
def takeEdge (parts : List (List Char)) : Option FlagEdge × List (List Char) :=
  -- The only segment is no edge: a flag has a number in front of it.
  if parts.length ≤ 1 then (none, parts)
  else if parts.getLast? = some FlagEdge.start.text.toList then (some .start, parts.dropLast)
  else if parts.getLast? = some FlagEdge.finish.text.toList then (some .finish, parts.dropLast)
  else (none, parts)

/-- The reference that a text writes, if it writes one. Leading zeros of segments are dropped. -/
def ofChars? : List Char → Option Reference
  | 'T' :: '.' :: name =>
    -- Any name will do here. Whether there is such a constant shows when its series is asked for.
    if isConstantName name then some (timeConstant (String.ofList name)) else none
  | [] => none
  | c :: cs => do
    let family ← Family.ofLetter? c
    -- Other families have no edges, so a last segment that names one is refused as a number.
    let (edge, parts) := if family = .flag then takeEdge (segments cs) else (none, segments cs)
    let path ← parts.mapM segment?
    if family.fewest ≤ path.length ∧ path.length ≤ family.most then some ⟨family, path, none, edge⟩
    else none

/-- The reference that a text writes. -/
def parse (text : String) : Except ReferenceError Reference :=
  match ofChars? text.toList with
  | some r => .ok r
  | none => .error (.malformed text)

end Reference

end MonthlyModel
