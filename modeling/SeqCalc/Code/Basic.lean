import SeqCalc.Program.Operator
import SeqCalc.Typing.Ty
import SeqCalc.Value.Basic

/-!
# Slot code

The code that statements are lowered to.  Names are gone: a function reads its arguments by
position, and the function literals of `map` and `reduce` are nested functions that see their own
arguments alone.  Every operation says which representation it works on.
-/

namespace SeqCalc

/-- The types that a function takes and returns. -/
structure Profile where
  result : Ty
  params : List Ty
deriving DecidableEq, Repr, Inhabited

inductive Code where
  /-- The argument at a position. -/
  | param (slot : Nat)
  | int (n : Int64)
  | float (x : Binary64)
  | neg (kind : Scalar) (operand : Code)
  | arith (kind : Scalar) (op : BinaryOp) (left right : Code)
  | cast (source target : Scalar) (operand : Code)
  /-- All integers from `first` to `last`; `closed` tells whether `last` is included. -/
  | range (closed : Bool) (first last : Code)
  /-- A nested function on each element of type `source`, with results of type `target`. -/
  | map (seq : Code) (profile : Profile) (body : Code) (source target : Ty)
  /-- Elements of kind `element`, folded by a nested function on accumulators of kind `acc`. -/
  | reduce (seq neutral : Code) (profile : Profile) (body : Code) (element acc : Scalar)
deriving Inhabited

namespace Code

/-- The slots that the code of a function loads, from left to right, nested functions left out. -/
def loads : Code → List Nat
  | .param slot => [slot]
  | .int _ | .float _ => []
  | .neg _ operand | .cast _ _ operand => operand.loads
  | .arith _ _ left right => left.loads ++ right.loads
  | .range _ first last => first.loads ++ last.loads
  | .map seq _ _ _ _ => seq.loads
  | .reduce seq neutral _ _ _ _ => seq.loads ++ neutral.loads

end Code

/-- A function: what it takes and returns, and its body. -/
structure Function where
  profile : Profile
  body : Code
deriving Inhabited

/-- How values of a type are stored; unknown values are not. -/
def Ty.kind? : Ty → Option Kind
  | .scalar .int => some .int
  | .scalar .float => some .float
  | .scalar .unknown => none
  | .seq _ _ => some .object

end SeqCalc
