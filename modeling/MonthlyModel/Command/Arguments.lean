/-!
The arguments of the command line. A command is named first; its options have long names and most of
them also letters, and letters can be run together. A value follows its option as the next argument or
is attached to it. After two dashes alone everything is an operand.
-/

namespace MonthlyModel.Command

/-- Display periods, as they are chosen on the command line. -/
inductive Display where
  | monthly
  | quarterly
  | annual
  | fiscal
deriving DecidableEq, Repr

/-- The display periods that a word selects. -/
def Display.ofName? : String → Option Display
  | "monthly" => some .monthly
  | "quarterly" => some .quarterly
  | "annual" => some .annual
  | "fiscal" => some .fiscal
  | _ => none

/-- A command with its options and its operand. -/
inductive Request where
  | evaluate (model : String) (inputs : Option String) (display : Display) (calculation : Option String)
  | export (model : String) (inputs : Option String) (sheet inputSheet : String) (output : Option String)
  | references (formula : String)
  | check (formula : String)
deriving DecidableEq, Repr

/-- Why there is no command to carry out. -/
inductive Usage where
  /-- Help was asked for. -/
  | help
  | wrong
deriving DecidableEq, Repr

/-- The names of commands. -/
inductive Verb where
  | eval
  | export
  | refs
  | check
deriving DecidableEq, Repr

/-- The command that a word names. -/
def Verb.ofName? : String → Option Verb
  | "eval" => some .eval
  | "export" => some .export
  | "refs" => some .refs
  | "check" => some .check
  | _ => none

/-- Options with a value. -/
inductive Setting where
  | inputs
  | granularity
  | calc
  | sheet
  | inputSheet
  | output
deriving DecidableEq, Repr

namespace Setting

/-- The long name of an option. -/
def long : Setting → String
  | .inputs => "inputs"
  | .granularity => "granularity"
  | .calc => "calc"
  | .sheet => "sheet"
  | .inputSheet => "input-sheet"
  | .output => "output"

/-- The letter of an option, if it has one. -/
def letter? : Setting → Option Char
  | .inputs => some 'i'
  | .granularity => some 'g'
  | .calc => some 'c'
  | .sheet => some 's'
  | .inputSheet => none
  | .output => some 'o'

/-- Whether an option takes a value: paths are not empty, and display periods are known. -/
def takes (s : Setting) (value : String) : Bool :=
  match s with
  | .inputs | .output => value != ""
  | .granularity => (Display.ofName? value).isSome
  | .calc | .sheet | .inputSheet => true

end Setting

/-- The options with a value that a command knows. -/
def Verb.settings : Verb → List Setting
  | .eval => [.inputs, .granularity, .calc]
  | .export => [.inputs, .sheet, .inputSheet, .output]
  | .refs | .check => []

/-- Whether a command takes an operand: models are paths, which are not empty. -/
def Verb.takes (v : Verb) (operand : String) : Bool :=
  match v with
  | .eval | .export => operand != ""
  | .refs | .check => true

/-- The options and the operand that were given so far. -/
structure Given where
  settings : List (Setting × String)
  operand : Option String

namespace Given

/-- Nothing was given yet. -/
def empty : Given :=
  ⟨[], none⟩

/-- Takes an option, which must be new. -/
def addSetting (g : Given) (s : Setting) (value : String) : Except Usage Given :=
  if (g.settings.lookup s).isSome || !s.takes value then .error .wrong
  else .ok { g with settings := (s, value) :: g.settings }

/-- Takes an operand, of which there is one. -/
def addOperand (v : Verb) (g : Given) (operand : String) : Except Usage Given :=
  if g.operand.isSome || !v.takes operand then .error .wrong else .ok { g with operand := some operand }

end Given

/-- An option without its value, or with the value attached to it. -/
abbrev Pending :=
  Option (Setting × Option String)

/-- The value attached to a letter, an equals sign between them aside. -/
def attached : List Char → Option String
  | [] => none
  | '=' :: cs => some (String.ofList cs)
  | cs => some (String.ofList cs)

/-- Reads letters that are run together, up to the first one with a value. -/
def readLetters (v : Verb) : List Char → Except Usage Pending
  | [] => .ok none
  | 'v' :: cs => readLetters v cs
  | 'h' :: _ => .error .help
  | c :: cs =>
    match v.settings.find? (·.letter? == some c) with
    | some s => .ok (some (s, attached cs))
    | none => .error .wrong

/-- A long name, with what follows its first equals sign. -/
def splitLong (cs : List Char) : String × Option String :=
  (String.ofList (cs.takeWhile (· != '=')), (cs.dropWhile (· != '=')).tail? |>.map String.ofList)

/-- Reads a long option. -/
def readLong (v : Verb) (cs : List Char) : Except Usage Pending :=
  match splitLong cs with
  | ("verbose", none) => .ok none
  | ("help", none) => .error .help
  | (name, value?) =>
    match v.settings.find? (·.long == name) with
    | some s => .ok (some (s, value?))
    | none => .error .wrong

/-- Whether an argument can be the value of the option before it. -/
def canBeValue (arg : String) : Bool :=
  arg == "-" || arg.toList.head? != some '-'

/-- The option that an argument gives; none if it is an operand. -/
def readOption (v : Verb) (arg : String) : Option (Except Usage Pending) :=
  match arg.toList with
  | '-' :: '-' :: cs => some (readLong v cs)
  | '-' :: c :: cs => some (readLetters v (c :: cs))
  | _ => none

/-- Takes the arguments of a command one after another. -/
def readArguments (v : Verb) (g : Given) : List String → Except Usage Given
  | [] => .ok g
  | "--" :: operands => operands.foldlM (Given.addOperand v) g
  | arg :: rest =>
    match readOption v arg with
    | none => do readArguments v (← g.addOperand v arg) rest
    | some (.error u) => .error u
    | some (.ok none) => readArguments v g rest
    | some (.ok (some (s, some value))) => do readArguments v (← g.addSetting s value) rest
    | some (.ok (some (s, none))) =>
      match rest with
      | [] => .error .wrong
      | value :: rest =>
        -- What looks like an option is never taken for the value of another one.
        if canBeValue value then do readArguments v (← g.addSetting s value) rest else .error .wrong

/-- The request of a verb with what was given. -/
def Request.ofGiven (v : Verb) (g : Given) : Except Usage Request :=
  let setting (s : Setting) : Option String := g.settings.lookup s
  match g.operand with
  | none => .error .wrong
  | some operand =>
    .ok <| match v with
    | .eval =>
      .evaluate operand (setting .inputs) ((setting .granularity).bind Display.ofName? |>.getD .monthly)
        (setting .calc)
    | .export =>
      .export operand (setting .inputs) ((setting .sheet).getD "Calculations")
        ((setting .inputSheet).getD "Inputs") (setting .output)
    | .refs => .references operand
    | .check => .check operand

/-- The letters before a command: the volume of messages, and requests for help or for the version. -/
def readFirstLetters : List Char → Except Usage Unit
  | [] => .ok ()
  | 'v' :: cs => readFirstLetters cs
  | 'h' :: _ | 'V' :: _ => .error .help
  | _ => .error .wrong

/-- Whether arguments of the help command name something to help with. -/
def asksForHelp : List String → Bool
  | [] | ["help"] => true
  | [name] => (Verb.ofName? name).isSome
  | _ => false

/-- The request that the arguments make. -/
def parseArguments : List String → Except Usage Request
  | [] => .error .wrong
  | "--verbose" :: rest => parseArguments rest
  | "--help" :: _ | "--version" :: _ => .error .help
  | "help" :: rest => .error (if asksForHelp rest then .help else .wrong)
  | arg :: rest =>
    match Verb.ofName? arg, arg.toList with
    | some v, _ => do Request.ofGiven v (← readArguments v .empty rest)
    | none, '-' :: c :: cs => do
      readFirstLetters (c :: cs)
      parseArguments rest
    | none, _ => .error .wrong

end MonthlyModel.Command
