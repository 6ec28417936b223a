import SeqCalc.Diagnostic.Basic
import SeqCalc.Program.Arena
import SeqCalc.Typing.Ty

/-!
# Type mistakes

What can be wrong with the types of a program, apart from how it is worded.  A complaint is a
mistake at a span; its diagnostic is the wording.
-/

namespace SeqCalc

/-! ## Causes -/

/-- The two constructs that take a function literal. -/
inductive Combinator where
  | map
  | reduce
deriving DecidableEq, Repr, Inhabited

def Combinator.name : Combinator → String
  | .map => "map"
  | .reduce => "reduce"

/-- Number of parameters that the function literal must have. -/
def Combinator.arity : Combinator → Nat
  | .map => 1
  | .reduce => 2

/-- The two operands of `reduce` that have to be numbers. -/
inductive ReduceOperand where
  | element
  | neutral
deriving DecidableEq, Repr, Inhabited

def ReduceOperand.text : ReduceOperand → String
  | .element => "reduced element"
  | .neutral => "neutral element"

inductive Mistake where
  /-- A name that its scope does not have; lambdas see their own parameters only. -/
  | undefined (name : String) (inLambda : Bool)
  | badOperand (op : UnaryOp) (operand : Ty)
  | badOperands (op : BinaryOp) (left right : Ty)
  | badRangeBound (found : Ty)
  | sequenceExpected (found : Ty)
  | scalarExpected (operand : ReduceOperand) (found : Ty)
  | lambdaExpected (combinator : Combinator)
  | wrongArity (combinator : Combinator) (found : Nat)
  | alreadyDefined (name : String)
  /-- The body of a reduce lambda does not have the type of the accumulator. -/
  | bodyMismatch (expected found : Ty)
  | strayLambda
deriving DecidableEq, Repr, Inhabited

/-- A mistake and where it was made. -/
structure Complaint where
  span : Span
  mistake : Mistake
deriving DecidableEq, Repr, Inhabited

/-! ## Wording -/

namespace Mistake

def code : Mistake → ErrorCode
  | undefined .. => .undefinedVariable
  | badOperand .. | badOperands .. => .badOperands
  | badRangeBound _ => .badRangeBound
  | sequenceExpected _ => .sequenceExpected
  | scalarExpected .. | lambdaExpected _ | bodyMismatch .. => .typeMismatch
  | wrongArity .. => .wrongArity
  | alreadyDefined _ => .alreadyDefined
  | strayLambda => .strayLambda

def message : Mistake → String
  | undefined name _ => s!"undefined variable `{name}`"
  | badOperand op operand => s!"operator `{op.symbol}` cannot be applied to {operand}"
  | badOperands op left right =>
    s!"operator `{op.symbol}` cannot be applied to {left} and {right}"
  | badRangeBound found => s!"range cannot have {found} as its boundary"
  | sequenceExpected found => s!"expected a sequence, found {found}"
  | scalarExpected operand found => s!"{operand.text} must be a number, found {found}"
  | lambdaExpected combinator =>
    s!"`{combinator.name}` expects a lambda as its last argument"
  | wrongArity combinator found =>
    let noun := if combinator.arity = 1 then "parameter" else "parameters"
    s!"`{combinator.name}` expects a lambda with {combinator.arity} {noun}, found {found}"
  | alreadyDefined name => s!"`{name}` is already defined"
  | bodyMismatch expected found =>
    s!"type mismatch in reduce lambda: expected {expected}, found {found}"
  | strayLambda => "lambdas can only be used as the last argument of `map` or `reduce`"

/-- The remark at the span of the mistake. -/
def remark : Mistake → String
  | undefined .. => "not found in this scope"
  | badRangeBound _ => "expected int"
  | alreadyDefined _ => "redefined here"
  | bodyMismatch expected _ => s!"expected {expected}"
  | _ => ""

def notes : Mistake → List String
  | undefined _ true =>
    ["lambdas only see their own parameters and cannot capture outer variables"]
  | _ => []

def suggestions : Mistake → List String
  | wrongArity .map _ => ["write the lambda as `x -> ...`"]
  | wrongArity .reduce _ => ["write the lambda as `acc x -> ...`"]
  | _ => []

end Mistake

/-- The diagnostic of a complaint, with its span as the primary one. -/
def Complaint.diagnostic (c : Complaint) : Diagnostic where
  code := c.mistake.code
  message := c.mistake.message
  labels := [⟨c.span, c.mistake.remark, true⟩]
  notes := c.mistake.notes
  suggestions := c.mistake.suggestions

end SeqCalc
