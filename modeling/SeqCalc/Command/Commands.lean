import SeqCalc.Command.FileTree
import SeqCalc.Command.Options
import SeqCalc.Execution.Compile
import SeqCalc.Execution.Worker
import SeqCalc.Program.Interchange

/-!
# Commands

Loading, checking and running programs as the command line does it, with every way in which a
command can fail and the text that tells it.
-/

namespace SeqCalc

/-! ## Failures -/

inductive CommandError where
  /-- A file cannot be read. -/
  | unreadable (path : String) (reason : ReadError)
  /-- A file is not an interchange text. -/
  | notAProgram (path : String)
  | compile (e : CompileError)
  | worker (e : WorkerError)
  | option (e : OptionError)
deriving DecidableEq, Repr, Inhabited

namespace CommandError

/-- The text of a failure, without the word that introduces it. -/
def message : CommandError → String
  | unreadable path reason => s!"cannot read `{path}`: {reason.text}"
  | notAProgram path => s!"`{path}` is not a valid program: malformed interchange text"
  | compile (.diagnostics ds) => diagnosticsText ds
  | compile (.backend e) => e.message
  | worker e => s!"runtime error: {e.message}"
  | option e => e.message

/-- The text for the terminal: all diagnostics, or the message after the word error. -/
def render : CommandError → String
  | compile (.diagnostics ds) => diagnosticsText ds
  | e => "error: " ++ e.message

/-- Whether the program is at fault, and not the command or the surroundings. -/
def isProgramError : CommandError → Bool
  | compile _ | worker _ => true
  | _ => false

end CommandError

/-! ## Running and checking -/

/-- What a finished run leaves behind. -/
structure RunOutcome where
  memory : Memory
  sink : Sink
deriving Inhabited

/-- The failure of a run, and what was printed before it. -/
structure RunFailure where
  error : CommandError
  sink : Sink
deriving Inhabited

/-- Compile a program and run it on a worker of its own. -/
def runProgram (o : Options) (p : SoundProgram) : Except RunFailure RunOutcome :=
  match p.compile o.backend o.errorLimit with
  | .error e => .error ⟨.compile e, o.sink⟩
  | .ok program =>
    match Worker.runAlone ⟨0, program, o.mode, o.sink⟩ with
    | .error e => .error ⟨.worker e, o.sink⟩
    | .ok reply =>
      match reply.result with
      | .error e => .error ⟨.worker (.exec e), reply.sink⟩
      | .ok memory => .ok ⟨memory, reply.sink⟩

/-- The program in the text of a file. -/
def loadProgram (path text : String) : Except CommandError SoundProgram :=
  match ParseOutcome.parse? text with
  | none => .error (.notAProgram path)
  | some outcome =>
    match outcome.accept with
    | .error ds => .error (.compile (.diagnostics ds))
    | .ok p => .ok p

/-- One line about a statement: what it writes and what it reads. -/
def Signature.text (s : Signature) : String :=
  let inputs := ", ".intercalate (s.inputs.map Variable.text)
  s!"{s.output.text} <- [{inputs}]"

/-- The lines that checking a program prints. -/
def checkReport (path : String) (t : TypedProgram) : List String :=
  t.signatures.map Signature.text ++ [s!"OK: {path} ({t.signatures.length} statements)"]

end SeqCalc
