import SeqCalc.Code.Backend
import SeqCalc.Diagnostic.Emitter
import SeqCalc.Execution.Sink
import SeqCalc.Text.Numeral
import SeqCalc.Value.Traversal

/-!
# Options

How a program is to be run, and the command-line arguments that say so.  Options apply in order
and the last of a kind counts; a wrong option leaves everything as it was.
-/

namespace SeqCalc

structure Options where
  backend : Backend
  parallel : Bool
  /-- Shorter sequences stay sequential, also in parallel runs. -/
  threshold : Nat
  /-- Keep what is printed instead of writing it to the terminal. -/
  capture : Bool
  /-- At most so many diagnostics are kept. -/
  errorLimit : Option Nat
deriving DecidableEq, Repr, Inhabited

/-- Why an argument is no option. -/
inductive OptionError where
  | unknownBackend (name : String)
  | invalid (argument : String)
deriving DecidableEq, Repr, Inhabited

def OptionError.message : OptionError → String
  | .unknownBackend name => s!"unknown backend `{name}` (expected `interp` or `jit`)"
  | .invalid argument => s!"invalid option `{argument}`"

/-- The backend with a given name; each has two. -/
def Backend.ofName (name : String) : Except OptionError Backend :=
  if name = "interp" ∨ name = "interpreter" then .ok .interp
  else if name = "jit" ∨ name = "native" then .ok .native
  else .error (.unknownBackend name)

/-- What follows `stem` in a text that starts with it. -/
def afterStem? (stem text : String) : Option (List Char) :=
  stem.toList.isPrefixOf? text.toList

namespace Options

def default : Options :=
  ⟨.interp, false, Mode.defaultThreshold, false, none⟩

/-- The defaults with the backend that the environment names, if it names one. -/
def ofEnvironment (backend : Option String) : Except OptionError Options :=
  match backend with
  | none => .ok default
  | some name =>
    if name.isEmpty then .ok default
    else (Backend.ofName name).map fun b => { default with backend := b }

/-- The count in an argument. -/
def count (argument : String) (digits : List Char) : Except OptionError Nat :=
  match Numeral.readCount? digits with
  | some n => .ok n
  | none => .error (.invalid argument)

/--
Take an argument into the options, and say whether it is an option at all.  The options are changed
in place, so what is written before a failure stays written.
-/
def take (argument : String) : ExceptT OptionError (StateM Options) Bool := do
  if let some name := afterStem? "--backend=" argument then
    let b ← Backend.ofName (String.ofList name)
    modify fun o => { o with backend := b }
    return true
  else if argument = "--parallel" ∨ argument = "-p" then
    modify fun o => { o with parallel := true }
    return true
  else if let some digits := afterStem? "--parallel-threshold=" argument then
    let n ← count argument digits
    modify fun o => { o with threshold := n }
    modify fun o => { o with parallel := true }
    return true
  else if let some digits := afterStem? "--error-limit=" argument then
    let n ← count argument digits
    modify fun o => { o with errorLimit := some n }
    return true
  else if (afterStem? "-" argument).isSome then
    throw (.invalid argument)
  else
    return false

/-- One call: its answer, and the options that it leaves. -/
def call (o : Options) (argument : String) : Except OptionError Bool × Options :=
  ((take argument).run.run o).run

/-- Apply an argument; none if it is not an option at all. -/
def apply (o : Options) (argument : String) : Except OptionError (Option Options) :=
  match o.call argument with
  | (.error e, _) => .error e
  | (.ok isOption, left) => .ok (if isOption then some left else none)

/-- How sequences are traversed. -/
def mode (o : Options) : Mode :=
  if o.parallel then .parallel o.threshold else .sequential

/-- A fresh emitter that honours the error limit. -/
def emitter (o : Options) : Emitter :=
  .withLimit o.errorLimit

/-- A fresh sink. -/
def sink (o : Options) : Sink :=
  if o.capture then .buffer [] else .terminal []

/--
Apply arguments in order.  The first one that is not an option is handed back, later ones are
ignored.
-/
def applyAll (o : Options) (operand : Option String) :
    List String → Except OptionError (Options × Option String)
  | [] => .ok (o, operand)
  | argument :: rest =>
    match o.apply argument with
    | .error e => .error e
    | .ok (some o) => o.applyAll operand rest
    | .ok none => o.applyAll (operand.or (some argument)) rest

end Options
end SeqCalc
