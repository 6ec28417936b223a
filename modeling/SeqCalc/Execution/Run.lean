import SeqCalc.Execution.Statement

/-!
# Runs in steps

A run taken apart into the moments that others can come between: a statement is let through, or
stopped by a cancellation, in one step, and evaluated in the next.

Main results:

- `Run.iterate_advance_between`: a run that nobody interferes with ends as `execute` says.
-/

namespace SeqCalc

/-- Where a run stands. -/
inductive Phase where
  /-- The next statement is still to be let through. -/
  | between (rest : CompiledProgram)
  /-- A statement has been let through and is being evaluated. -/
  | inside (s : Statement) (rest : CompiledProgram)
  | ended (result : Except ExecError Unit)

/-- A program on its way. -/
structure Run where
  mode : Mode
  state : RunState
  phase : Phase

namespace Run

/-- A run about to start on an empty memory. -/
def start (mode : Mode) (program : CompiledProgram) (sink : Sink) (cancelled : Bool) : Run :=
  ⟨mode, ⟨.empty, sink, cancelled⟩, .between program⟩

/-- Ask the run to stop before its next statement. -/
def cancel (r : Run) : Run :=
  { r with state := { r.state with cancelled := true } }

def isInside (r : Run) : Bool :=
  match r.phase with
  | .inside _ _ => true
  | _ => false

/-- The result, once there is one. -/
def result? (r : Run) : Option (Except ExecError Unit) :=
  match r.phase with
  | .ended result => some result
  | _ => none

/-- The next step; a run that has ended stays as it is. -/
def advance (r : Run) : Run :=
  match r.phase with
  | .between [] => { r with phase := .ended (.ok ()) }
  | .between (s :: rest) =>
    if r.state.cancelled then { r with phase := .ended (.error ⟨s.span, .cancelled⟩) }
    else { r with phase := .inside s rest }
  | .inside s rest =>
    match r.state.complete r.mode s with
    | (.error e, state) => { r with state := state, phase := .ended (.error e) }
    | (.ok (), state) => { r with state := state, phase := .between rest }
  | .ended _ => r

/-- A number of steps. -/
def advanceBy : Nat → Run → Run
  | 0, r => r
  | n + 1, r => advanceBy n r.advance

/-- Two steps for each statement and one more to notice the end. -/
def stepsFor (program : CompiledProgram) : Nat :=
  2 * program.length + 1

@[simp]
theorem advanceBy_ended (n : Nat) (mode : Mode) (state : RunState)
    (result : Except ExecError Unit) :
    advanceBy n ⟨mode, state, .ended result⟩ = ⟨mode, state, .ended result⟩ := by
  induction n with
  | zero => rfl
  | succ n ih => rw [advanceBy]; exact ih

/-- Left alone, a run ends with the result and the state of executing its statements. -/
theorem iterate_advance_between (mode : Mode) (state : RunState) (program : CompiledProgram) :
    advanceBy (stepsFor program) ⟨mode, state, .between program⟩ =
      ⟨mode, (execute mode state program).2, .ended (execute mode state program).1⟩ := by
  induction program generalizing state with
  | nil => rfl
  | cons s rest ih =>
    have hsteps : stepsFor (s :: rest) = stepsFor rest + 1 + 1 := by
      simp only [stepsFor, List.length_cons]
      omega
    rw [hsteps, advanceBy, advanceBy]
    cases hc : state.cancelled with
    | true => simp [advance, execute, RunState.step, hc]
    | false =>
      cases hr : state.complete mode s with
      | mk result next =>
        cases result with
        | error e => simp [advance, execute, RunState.step, hc, hr]
        | ok u => simpa [advance, execute, RunState.step, hc, hr] using ih next

end Run
end SeqCalc
