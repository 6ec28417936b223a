/-!
# Operators

The operators of the expression language.
-/

namespace SeqCalc

inductive BinaryOp where
  | add | sub | mul | div | pow
deriving DecidableEq, Repr, Inhabited

/-- The sign of an operator, as diagnostics show it. -/
def BinaryOp.symbol : BinaryOp → String
  | .add => "+"
  | .sub => "-"
  | .mul => "*"
  | .div => "/"
  | .pow => "^"

inductive UnaryOp where
  | neg
  /-- The identity. -/
  | plus
deriving DecidableEq, Repr, Inhabited

def UnaryOp.symbol : UnaryOp → String
  | .neg => "-"
  | .plus => "+"

end SeqCalc
