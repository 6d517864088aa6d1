/-!
Programs as descriptions: what a command reads, writes and prints, and with which code it ends. A
program can be carried out on files held in memory as well as on a real disk.
-/

namespace MonthlyModel.Command

/-- Why a file cannot be read or written. -/
inductive FileError where
  | notFound
  | isDirectory
  | notDirectory
  | denied
  | other (text : String)
deriving DecidableEq, Repr

/-- The error as the operating system words it. -/
def FileError.message : FileError → String
  | .notFound => "No such file or directory (os error 2)"
  | .isDirectory => "Is a directory (os error 21)"
  | .notDirectory => "Not a directory (os error 20)"
  | .denied => "Permission denied (os error 13)"
  | .other text => text

/-- What a command does. -/
inductive Program where
  | done (code : Nat)
  | read (path : String) (next : Except FileError (List UInt8) → Program)
  | write (path text : String) (next : Except FileError Unit → Program)
  /-- Output. -/
  | print (text : String) (next : Program)
  /-- Messages. -/
  | report (text : String) (next : Program)

/-! ### Files in memory -/

/-- Files by path; a path is the list of its parts. -/
abbrev Files :=
  List (List String × List UInt8)

/-- The parts of a relative path. Empty parts and points lead nowhere. -/
def pathParts (path : String) : List String :=
  (path.splitOn "/").filter fun part => part != "" && part != "."

namespace Files

/-- Whether some file lies below a path. -/
def isDirectory (fs : Files) (parts : List String) : Bool :=
  parts.isEmpty || fs.any fun f => parts.isPrefixOf f.1 && f.1 != parts

/-- What is wrong with a path of which the last part is missing. -/
def absence (fs : Files) (parts : List String) : FileError :=
  if (List.range parts.length).any fun i => fs.any (·.1 == parts.take i) then .notDirectory else .notFound

/-- The bytes of the file at a path. -/
def read (fs : Files) (path : String) : Except FileError (List UInt8) :=
  match fs.lookup (pathParts path) with
  | some bytes => .ok bytes
  | none => .error (if fs.isDirectory (pathParts path) then .isDirectory else fs.absence (pathParts path))

/-- The files with another one written; its directory must be there. -/
def write (fs : Files) (path text : String) : Except FileError Files :=
  let parts := pathParts path
  if fs.isDirectory parts then .error .isDirectory
  else if fs.isDirectory parts.dropLast then
    .ok ((parts, text.toUTF8.toList) :: fs.filter (·.1 != parts))
  else .error (fs.absence parts)

end Files

/-- What a program leaves behind. -/
structure Outcome where
  code : Nat
  output : String
  messages : String
  files : Files

/-- Carries a program out on files in memory. -/
def Program.run (o : Outcome) : Program → Outcome
  | .done code => { o with code := code }
  | .read path next => (next (o.files.read path)).run o
  | .write path text next =>
    match o.files.write path text with
    | .ok files => (next (.ok ())).run { o with files := files }
    | .error e => (next (.error e)).run o
  | .print text next => next.run { o with output := o.output ++ text }
  | .report text next => next.run { o with messages := o.messages ++ text }

end MonthlyModel.Command
