import SeqCalc.Code.Basic
import SeqCalc.Value.Arith
import SeqCalc.Value.Range
import SeqCalc.Value.Traversal

/-!
# The interpreter

Slot code evaluated on values.  Operands are evaluated from left to right, each has to have the
shape that its operation wants, and the first fault is the answer.
-/

namespace SeqCalc

/-- Operations of every representation but float are integer operations. -/
def Scalar.isFloat : Scalar → Bool
  | .float => true
  | _ => false

/-- The integers of a range. -/
def Range.elements (closed : Bool) (first last : Int64) : Except Fault (List Int64) :=
  if closed then Range.closed first last else Range.halfOpen first last

namespace Code

/-- The value of an operation on the given arguments. -/
def eval (mode : Mode) : Code → List Value → Except Fault Value
  | .param slot, args =>
    match args[slot]? with
    | some v => .ok v
    | none => .error (.unbound s!"#{slot}")
  | .int n, _ => .ok (.int n)
  | .float x, _ => .ok (.float x)
  | .neg kind operand, args => do
    let v ← operand.eval mode args
    if kind.isFloat then
      return .float (-(← v.asFloat))
    else
      return .int (-(← v.asInt))
  | .arith kind op left right, args => do
    if kind.isFloat then
      let x ← (← left.eval mode args).asFloat
      let y ← (← right.eval mode args).asFloat
      return .float (Arith.floatOp op x y)
    else
      let a ← (← left.eval mode args).asInt
      let b ← (← right.eval mode args).asInt
      return .int (← Arith.intOp op a b)
  | .cast source target operand, args => do
    let v ← operand.eval mode args
    if source = target then
      return v
    else if target.isFloat then
      return .float (.ofInt64 (← v.asInt))
    else
      return .int (← v.asFloat).toInt64
  | .range closed first last, args => do
    let a ← (← first.eval mode args).asInt
    let b ← (← last.eval mode args).asInt
    return .seq (.ints (← Range.elements closed a b))
  | .map seq _ body _ target, args => do
    let source ← (← seq.eval mode args).asSeq
    return .seq (← source.mapM mode (target.kind?.getD .object) fun v => body.eval mode [v])
  | .reduce seq neutral _ body _ _, args => do
    let source ← seq.eval mode args
    let start ← neutral.eval mode args
    (← source.asSeq).reduceM mode (fun a b => body.eval mode [a, b]) start

end Code
end SeqCalc
