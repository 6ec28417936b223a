import SeqCalc.Code.Interp
import SeqCalc.Code.Lowering
import SeqCalc.Code.Native
import SeqCalc.Diagnostic.Emitter
import SeqCalc.Execution.Statement

/-!
# Compiling programs

From what a reader of program texts hands over to statements that can be executed: the program has
to be sound, then its types have to be right, then the backend has to take every statement.
-/

namespace SeqCalc

/-- Why a program cannot be compiled. -/
inductive CompileError where
  | diagnostics (ds : List Diagnostic)
  | backend (e : BackendError)
deriving DecidableEq, Repr, Inhabited

/-! ## Accepting -/

/-- The diagnostic of a syntax error. -/
def SyntaxError.diagnostic (e : SyntaxError) : Diagnostic :=
  (Diagnostic.ofCode .badSyntax).withMessage e.message |>.withLabel e.span ""

/-- The flaws of a program as syntax errors. -/
def Program.syntaxErrors (p : Program) : List SyntaxError :=
  p.validate.map fun f => ⟨f.1, f.2.message⟩

/-- A program, if it has no flaws. -/
def Program.accept (p : Program) : Except (List Diagnostic) SoundProgram :=
  if h : p.validate = [] then .ok ⟨p, h⟩
  else .error (p.syntaxErrors.map SyntaxError.diagnostic)

/-- The program of an outcome, if it has one and that has no flaws. -/
def ParseOutcome.accept : ParseOutcome → Except (List Diagnostic) SoundProgram
  | .program p => p.accept
  | .syntaxErrors errors => .error (errors.map SyntaxError.diagnostic)

/-! ## Checking -/

/-- The diagnostics of an inferred program, in the order of its complaints. -/
def TypedProgram.diagnostics (t : TypedProgram) : List Diagnostic :=
  t.complaints.map Complaint.diagnostic

/-- Infer the types of a program, collecting what is reported by an emitter. -/
def SoundProgram.check (p : SoundProgram) (e : Emitter) :
    Except (List Diagnostic) TypedProgram × Emitter :=
  let typed := p.infer
  match e.collect typed.diagnostics with
  | (some kept, e) => (.error kept, e)
  | (none, e) => (.ok typed, e)

/-! ## Compiling -/

/-- Evaluate a function on a machine. -/
def Backend.eval (b : Backend) (mode : Mode) (f : Function) (args : List Value) :
    Except Fault Value :=
  match b with
  | .interp => f.body.eval mode args
  | .native => Native.call mode f args

/-- The statement that calls a function. -/
def Statement.ofFunction (b : Backend) (f : Function) (s : Signature) (span : Span) :
    Statement where
  callable := fun mode args => ⟨b.eval mode f args, false⟩
  inputs := s.inputs
  output := s.output
  span := span

/-- Compile statements with their signatures; the first refusal is the answer. -/
def compileStmts (b : Backend) (types : TypeTable) :
    List Stmt → List Signature → Except BackendError CompiledProgram
  | stmt :: stmts, s :: signatures => do
    let f ← s.lower b types stmt.value
    let rest ← compileStmts b types stmts signatures
    return Statement.ofFunction b f s stmt.span :: rest
  | _, _ => .ok []

/-- Check and compile a program. -/
def SoundProgram.compile (p : SoundProgram) (b : Backend) (limit : Option Nat) :
    Except CompileError CompiledProgram :=
  match (p.check (.withLimit limit)).1 with
  | .error ds => .error (.diagnostics ds)
  | .ok typed =>
    match compileStmts b typed.table p.stmts typed.signatures with
    | .error e => .error (.backend e)
    | .ok statements => .ok statements

end SeqCalc
