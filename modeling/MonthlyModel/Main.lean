import MonthlyModel.Command.Run

/-!
The command line on a real disk.
-/

namespace MonthlyModel.Command

/-- Why the disk refused. The code of an error may come with its sign turned. -/
def FileError.ofDisk : IO.Error → FileError
  | .noFileOrDirectory .. => .notFound
  | .inappropriateType _ code _ => if code = 21 ∨ code = -21 then .isDirectory else .notDirectory
  | .permissionDenied .. => .denied
  | e => .other (toString e)

/-- Carries a program out. -/
def Program.carryOut : Program → IO UInt32
  | .done code => return UInt32.ofNat code
  | .read path next => do
    let content ← (IO.FS.readBinFile path).toBaseIO
    match content with
    | .ok bytes => (next (.ok bytes.toList)).carryOut
    | .error e => (next (.error (.ofDisk e))).carryOut
  | .write path text next => do
    let written ← (IO.FS.writeFile path text).toBaseIO
    match written with
    | .ok () => (next (.ok ())).carryOut
    | .error e => (next (.error (.ofDisk e))).carryOut
  | .print text next => do
    IO.print text
    next.carryOut
  | .report text next => do
    IO.eprint text
    next.carryOut

end MonthlyModel.Command

/-- Carries out the command line on the real files. -/
def main (arguments : List String) : IO UInt32 :=
  (MonthlyModel.Command.program arguments).carryOut
