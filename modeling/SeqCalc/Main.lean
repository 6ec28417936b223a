import SeqCalc.Command.Shell

/-!
# The program

Reads arguments, environment and at most one file, and writes the outcome.
-/

namespace SeqCalc

/--
The reason why a file cannot be read.  A failure to open the file names it, a failure to go on
reading does not.
-/
def readError : IO.Error → ReadError
  | .noFileOrDirectory _ _ _ => .missing
  | .permissionDenied _ _ _ => .denied
  | .inappropriateType (some _) _ _ => .notDirectory
  | .inappropriateType none _ _ => .isDirectory
  | .invalidArgument (some _) _ _ => .nameTooLong
  | .userError _ => .notText
  | e => .other (toString e)

/-- Carry a plan out. -/
def carryOut : Plan → IO Outcome
  | .done outcome => return outcome
  | .load path next => do
    let contents ← (IO.FS.readFile path).toBaseIO
    match contents with
    | .ok text => return next (.ok text)
    | .error e => return next (.error (readError e))

end SeqCalc

def main (arguments : List String) : IO UInt32 := do
  let backend ← IO.getEnv "MRC_BACKEND"
  let outcome ← SeqCalc.carryOut (SeqCalc.Shell.plan backend arguments)
  (← IO.getStdout).putStr outcome.stdout
  (← IO.getStderr).putStr outcome.stderr
  return outcome.exit.toUInt32
