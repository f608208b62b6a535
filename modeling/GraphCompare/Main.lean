import GraphCompare.Command.Run

/-!
# The program

The command line over the files of the system. Results go to standard output and the reason of a
failure to standard error; the exit code is that of the outcome.
-/

namespace GraphCompare

/-- The fault that an error of the system stands for. The number of an error may come with either
sign. -/
def faultOfError : IO.Error → FileFault
  | .noFileOrDirectory .. => .missing
  | .alreadyExists .. => .taken
  | e@(.inappropriateType _ code _) =>
    if code = 20 ∨ code = -20 then .notDirectory
    else if code = 21 ∨ code = -21 then .isDirectory
    else .other (toString e)
  | e@(.invalidArgument _ code _) =>
    if code = 36 ∨ code = -36 then .nameTooLong else .other (toString e)
  | e => .other (toString e)

/-- Does something to the files of the system. -/
def attempt {α : Type} (task : IO α) : IO (Except FileFault α) := do
  match ← task.toBaseIO with
  | .ok a => return .ok a
  | .error e => return .error (faultOfError e)

instance : Files IO where
  readBytes path := attempt (IO.FS.readBinFile path)
  writeBytes path bytes := attempt (IO.FS.writeBinFile path bytes)
  makeDirectory path := attempt (IO.FS.createDir path)

end GraphCompare

/-- Runs the program. -/
def main (args : List String) : IO UInt32 := do
  let outcome ← GraphCompare.runArguments args
  match outcome with
  | .done output => IO.print output
  | .failed reason => IO.eprintln ("Error: " ++ reason)
  | .misused => IO.eprintln GraphCompare.usageText
  return outcome.code.toUInt32
