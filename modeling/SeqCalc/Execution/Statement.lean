import SeqCalc.Execution.Memory
import SeqCalc.Execution.Sink
import SeqCalc.Program.Span
import SeqCalc.Value.Traversal

/-!
# Executing statements

A compiled statement reads its inputs from memory, calls its callable and binds the result to its
output.  A program is a list of statements, executed in order; before each one the cancellation
flag is looked at, and the first failure ends the run.  Statements whose output is a print marker
print their value after it is bound.

Main results:

- `execute_nil`, `execute_cons`: a run is the run of its first statement and then of the others.
-/

namespace SeqCalc

/-! ## Statements -/

/-- What calling a callable amounts to: its result, and whether it wants the run to be stopped. -/
structure Answer where
  result : Except Fault Value
  cancels : Bool

/-- Anything that takes arguments by position and answers. -/
abbrev Callable := Mode → List Value → Answer

structure Statement where
  callable : Callable
  inputs : List Variable
  output : Variable
  span : Span

namespace Statement

/-- Whether the value of a statement is printed. -/
def prints (s : Statement) : Bool :=
  s.output.isPrintMarker

/-- The values of the inputs, the first missing one being a fault. -/
def arguments (s : Statement) (memory : Memory) : Except Fault (List Value) :=
  s.inputs.mapM memory.get

/-- Read, call and bind; tells the value and the new memory, and whether the run is to stop. -/
def exec (s : Statement) (mode : Mode) (memory : Memory) : Except Fault (Value × Memory) × Bool :=
  match s.arguments memory with
  | .error e => (.error e, false)
  | .ok args =>
    let answer := s.callable mode args
    let bound := do
      let value ← answer.result
      let memory ← memory.bind s.output value
      return (value, memory)
    (bound, answer.cancels)

/-- The fields of a statement, for a developer. -/
def inspect (s : Statement) : String :=
  let inputs := ", ".intercalate (s.inputs.map Variable.inspect)
  "Stmt \x7b inputs: [" ++ inputs ++ "], output: " ++ s.output.inspect ++ ", span: " ++
    s.span.text ++ ", .. \x7d"

end Statement

/-- Compiled statements in program order. -/
abbrev CompiledProgram := List Statement

/-! ## Runs -/

/-- A fault and the statement that raised it, by its span. -/
structure ExecError where
  span : Span
  fault : Fault
deriving DecidableEq, Repr, Inhabited

/-- What statements share: the memory, the sink, and whether the run has been cancelled. -/
structure RunState where
  memory : Memory
  sink : Sink
  cancelled : Bool
deriving Inhabited

/-- A run about to start, with an empty memory. -/
def RunState.fresh (sink : Sink) : RunState :=
  ⟨.empty, sink, false⟩

/-- Evaluate a statement that was let through: bind its value and print it if it is marked. -/
def RunState.complete (m : RunState) (mode : Mode) (s : Statement) :
    Except ExecError Unit × RunState :=
  let (result, cancels) := s.exec mode m.memory
  let cancelled := m.cancelled || cancels
  match result with
  | .error e => (.error ⟨s.span, e⟩, { m with cancelled := cancelled })
  | .ok (value, memory) =>
    (.ok (),
      { memory := memory
        sink := if s.prints then m.sink.printValue value else m.sink
        cancelled := cancelled })

/-- One statement of a run: it is let through only while the run is not cancelled. -/
def RunState.step (m : RunState) (mode : Mode) (s : Statement) : Except ExecError Unit × RunState :=
  if m.cancelled then (.error ⟨s.span, .cancelled⟩, m) else m.complete mode s

/-- Execute statements in order until one fails. -/
def execute (mode : Mode) (m : RunState) : CompiledProgram → Except ExecError Unit × RunState
  | [] => (.ok (), m)
  | s :: rest =>
    match m.step mode s with
    | (.error e, m) => (.error e, m)
    | (.ok (), m) => execute mode m rest

@[simp]
theorem execute_nil (mode : Mode) (m : RunState) : execute mode m [] = (.ok (), m) :=
  rfl

theorem execute_cons (mode : Mode) (m : RunState) (s : Statement) (rest : CompiledProgram) :
    execute mode m (s :: rest) =
      match m.step mode s with
      | (.error e, m') => (.error e, m')
      | (.ok (), m') => execute mode m' rest :=
  rfl

/-- Execute statements one after the other on one memory, going on after failures. -/
def executeEach (mode : Mode) (memory : Memory) :
    CompiledProgram → List (Statement × Except Fault Value × Memory)
  | [] => []
  | s :: rest =>
    match (s.exec mode memory).1 with
    | .ok (value, memory) => (s, .ok value, memory) :: executeEach mode memory rest
    | .error e => (s, .error e, memory) :: executeEach mode memory rest

end SeqCalc
