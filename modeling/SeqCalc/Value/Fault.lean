import SeqCalc.Value.Basic

/-!
# Faults

What can stop the evaluation of a statement.  Three of the causes never arise in a program whose
types were checked.
-/

namespace SeqCalc

/-- What a value was expected to be, or was found to be. -/
inductive Shape where
  | int
  | float
  | sequence
  | intSequence
  | floatSequence
  | numericSequence
  | nestedSequence
  /-- The absence of a sequence. -/
  | null
  | matchingArguments
  | otherArguments
deriving DecidableEq, Repr, Inhabited

def Shape.text : Shape → String
  | .int => "int"
  | .float => "float"
  | .sequence => "sequence"
  | .intSequence => "int sequence"
  | .floatSequence => "float sequence"
  | .numericSequence => "numeric sequence"
  | .nestedSequence => "nested sequence"
  | .null => "null"
  | .matchingArguments => "matching argument count"
  | .otherArguments => "different argument count"

inductive Fault where
  /-- A variable is read that nothing was bound to. -/
  | unbound (name : String)
  /-- A variable is bound a second time. -/
  | alreadyBound (name : String)
  /-- A range from `start` to `last` would have more than `max` elements. -/
  | rangeOverflow (start last : Int64) (max : Nat)
  | divisionByZero
  | mismatch (expected found : Shape)
  | cancelled
deriving DecidableEq, Repr, Inhabited

namespace Fault

def message : Fault → String
  | unbound name => s!"unbound variable `{name}`"
  | alreadyBound name => s!"variable `{name}` is already bound"
  | rangeOverflow start last max =>
    s!"range {start.toInt}..={last.toInt} has more than {max} elements"
  | divisionByZero => "division by zero"
  | mismatch expected found =>
    s!"type mismatch: expected {expected.text}, found {found.text}"
  | cancelled => "execution cancelled"

/-- Whether the fault is the evaluator's and not the program's. -/
def isInternal : Fault → Bool
  | unbound _ | alreadyBound _ | mismatch _ _ => true
  | _ => false

end Fault

/-! ## Expecting a shape -/

namespace Value

def shape : Value → Shape
  | int _ => .int
  | float _ => .float
  | seq _ => .sequence

def asInt : Value → Except Fault Int64
  | int n => .ok n
  | v => .error (.mismatch .int v.shape)

def asFloat : Value → Except Fault Binary64
  | float x => .ok x
  | v => .error (.mismatch .float v.shape)

def asSeq : Value → Except Fault Sequence
  | seq s => .ok s
  | v => .error (.mismatch .sequence v.shape)

end Value
end SeqCalc
