import SeqCalc.Command.Commands

/-!
# The command line

What the program does with its arguments, as far as that can be said without reading files: either
the outcome is settled at once, or it depends on the contents of one file.
-/

namespace SeqCalc

/-! ## Outcomes -/

/-- What a command leaves for the caller to see. -/
structure Outcome where
  exit : Nat
  stdout : String
  stderr : String
deriving DecidableEq, Repr, Inhabited

/-- A command that is settled, or one that goes on with a file or the reason why it has none. -/
inductive Plan where
  | done (outcome : Outcome)
  | load (path : String) (next : Except ReadError String → Outcome)

/-- The outcome where the files are those of a tree. -/
def Plan.within (t : FileTree) : Plan → Outcome
  | done outcome => outcome
  | load path next => next (t.read path)

namespace Shell

/-- Lines, each with its line break. -/
def joinLines (lines : List String) : String :=
  Sink.joinLines lines

/-- The help text. -/
def usage : String :=
  joinLines
    ["MrCalc",
      "",
      "Usage: mrc <command> [options]",
      "",
      "Commands:",
      "  run <program.json>    Compile and run a parsed program",
      "  check <program.json>  Type check only, printing statement signatures",
      "  help                  Show this help message",
      "  version               Show version information",
      "",
      "Run options:",
      "  --backend=<name>            interp (default) or jit",
      "  --parallel, -p              Run map/reduce on the thread pool",
      "  --parallel-threshold=<n>    Minimum sequence length for parallel work",
      "  --error-limit=<n>           Report at most n type errors (run and check)",
      "",
      "Environment:",
      "  MRC_BACKEND     Backend when --backend is not given",
      "  MRC_LOG         Tracing filter, e.g. mrc_eval=debug",
      "  MRC_LOG_TREE    Set to 1 for hierarchical log output",
      "  MRC_DEBUG_JIT   Log the Cranelift IR of every JIT function",
      "",
      "Examples:",
      "  mrc run pi.json",
      "  mrc run pi.json --backend=jit --parallel",
      "  mrc check pi.json"]

/-- The version that the program reports. -/
def versionLine : String :=
  "MrCalc 0.1.0"

/-- A failure after `printed` was written: the program's own faults exit with 1, others with 2. -/
def failure (printed : String) (e : CommandError) : Outcome :=
  ⟨if e.isProgramError then 1 else 2, printed, e.render ++ "\n"⟩

/-! ## Commands on files -/

/-- Go on with the program in a file. -/
def withProgram (path : String) (next : SoundProgram → Outcome) : Plan :=
  .load path fun contents =>
    match contents with
    | .error reason => failure "" (.unreadable path reason)
    | .ok text =>
      match loadProgram path text with
      | .error e => failure "" e
      | .ok p => next p

/-- Run a program and show what it prints. -/
def runOutcome (o : Options) (p : SoundProgram) : Outcome :=
  match runProgram o p with
  | .ok r => ⟨0, r.sink.terminalText, ""⟩
  | .error f => failure f.sink.terminalText f.error

/-- Check a program and show its signatures. -/
def checkOutcome (o : Options) (path : String) (p : SoundProgram) : Outcome :=
  match (p.check o.emitter).1 with
  | .ok typed => ⟨0, joinLines (checkReport path typed), ""⟩
  | .error ds => failure "" (.compile (.diagnostics ds))

/-- Read the arguments of a command that works on one file. -/
def onFile (usageLine : String) (environment : Option String) (arguments : List String)
    (next : Options → String → Plan) : Plan :=
  match Options.ofEnvironment environment with
  | .error e => .done (failure "" (.option e))
  | .ok o =>
    match o.applyAll none arguments with
    | .error e => .done (failure "" (.option e))
    | .ok (_, none) =>
      .done ⟨1, "", joinLines ["error: missing program path", "Usage: " ++ usageLine]⟩
    | .ok (o, some path) => next o path

def runPlan (environment : Option String) (arguments : List String) : Plan :=
  onFile "mrc run <program.json> [--backend=interp|jit] [--parallel]" environment arguments
    fun o path => withProgram path (runOutcome o)

def checkPlan (environment : Option String) (arguments : List String) : Plan :=
  onFile "mrc check <program.json> [--error-limit=<n>]" environment arguments
    fun o path => withProgram path (checkOutcome o path)

/-! ## Choosing a command -/

/--
What follows the last point in the file name at the end of a path.  Trailing slashes and single
points as directories do not count; a name that starts with its only point has no extension.
-/
def extension? (path : List Char) : Option (List Char) :=
  match ((pathParts path).filter fun part => part ≠ [] ∧ part ≠ ['.']).getLast? with
  | none => none
  | some ['.', '.'] => none
  | some name =>
    let reversed := name.reverse
    let ending := reversed.takeWhile (· ≠ '.')
    let stem := reversed.drop (ending.length + 1)
    if ending.length < reversed.length ∧ stem ≠ [] then some ending.reverse else none

/-- Whether a text looks like the path of a program file. -/
def isProgramPath (path : String) : Bool :=
  (extension? path.toList).any fun e => e.map Char.toLower == ['j', 's', 'o', 'n']

/-- What to do with the arguments, given the backend that the environment names. -/
def plan (environment : Option String) : List String → Plan
  | [] => .done ⟨0, usage, ""⟩
  | command :: rest =>
    if command = "run" then runPlan environment rest
    else if command = "check" then checkPlan environment rest
    else if command ∈ ["help", "--help", "-h"] then .done ⟨0, usage, ""⟩
    else if command ∈ ["version", "--version", "-V"] then .done ⟨0, joinLines [versionLine], ""⟩
    else if isProgramPath command then runPlan environment (command :: rest)
    else .done ⟨1, usage, joinLines ["Unknown command: " ++ command, ""]⟩

end Shell
end SeqCalc
