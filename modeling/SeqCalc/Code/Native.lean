import SeqCalc.Code.Basic
import SeqCalc.Value.Arith
import SeqCalc.Value.Range
import SeqCalc.Value.Traversal

/-!
# The native machine

Slot code run on bare registers.  The machine cannot stop in the middle: an operation that fails
records its fault and goes on with a neutral result, zero or no sequence at all.  Of all faults
only the first is kept, and once there is one, operations on sequences do nothing more.  The
caller looks at the record when the function has run to its end.

Main results:

- `Native.recorded_fail`: a later fault never replaces an earlier one.
-/

namespace SeqCalc

/-! ## The record of faults -/

/-- What the operations of one run share: whether one has failed, and the first fault. -/
structure FaultRecord where
  failed : Bool
  first : Option Fault
deriving DecidableEq, Repr, Inhabited

namespace FaultRecord

def clear : FaultRecord :=
  ⟨false, none⟩

/-- Record a fault, unless an earlier one is there. -/
def fail (r : FaultRecord) (e : Fault) : FaultRecord :=
  ⟨true, r.first.or (some e)⟩

/-- The recorded fault, once anything failed; a fault that was taken away counts as a stop. -/
def check (r : FaultRecord) : Except Fault Unit :=
  if r.failed then .error (r.first.getD .cancelled) else .ok ()

/-- Take the recorded fault away. -/
def take (r : FaultRecord) : Option Fault × FaultRecord :=
  (r.first, { r with first := none })

theorem first_fail_of_some {r : FaultRecord} {e : Fault} (h : r.first = some e) (e' : Fault) :
    (r.fail e').first = some e := by
  simp [fail, h]

end FaultRecord

/-- Steps of the native machine. -/
abbrev Native := StateM FaultRecord

/-! ## Registers -/

/-- A bare word or float; the sequence of a register may be missing. -/
inductive Register where
  | int (n : Int64)
  | float (x : Binary64)
  | seq (s : Option Sequence)
deriving Inhabited

namespace Register

/-- The neutral register of a kind. -/
def neutral : Kind → Register
  | .int => .int 0
  | .float => .float .zero
  | .object => .seq none

def toInt : Register → Int64
  | int n => n
  | _ => 0

def toFloat : Register → Binary64
  | float x => x
  | _ => .zero

def toSeq : Register → Option Sequence
  | seq s => s
  | _ => none

end Register

namespace Native

/-! ## Operations that may fail -/

/-- Record a fault. -/
def fail (e : Fault) : Native Unit :=
  modify (·.fail e)

/-- Whether something has failed. -/
def hasFailed : Native Bool := do
  return (← get).failed

/-- The integer of a computation; zero after a fault, which is recorded. -/
def checked (r : Except Fault Int64) : Native Int64 :=
  match r with
  | .ok n => pure n
  | .error e => do
    fail e
    return 0

def intDiv (a b : Int64) : Native Int64 :=
  checked (Arith.intDiv a b)

def intPow (a b : Int64) : Native Int64 :=
  checked (Arith.intPow a b)

/-- A fresh sequence of integers; none after any failure. -/
def newRange (elements : Except Fault (List Int64)) : Native (Option Sequence) := do
  if ← hasFailed then
    return none
  match elements with
  | .ok xs => return some (.ints xs)
  | .error e =>
    fail e
    return none

/-- The integers from `first` up to, but not including, `stop`. -/
def range (first stop : Int64) : Native (Option Sequence) :=
  newRange (Range.halfOpen first stop)

/-- The integers from `first` to `last`, both included. -/
def rangeClosed (first last : Int64) : Native (Option Sequence) :=
  newRange (Range.closed first last)

/-! ## Lanes -/

/-- What a lane of a kind reads from. -/
def laneShape : Kind → Shape
  | .int => .intSequence
  | .float => .numericSequence
  | .object => .nestedSequence

/-- What a sequence is, seen from a lane. -/
def sequenceShape : Kind → Shape
  | .int => .intSequence
  | .float => .floatSequence
  | .object => .nestedSequence

/--
The elements of a sequence as registers of a kind, if the sequence can be read so: integers from
integers, floats from floats or from integers, and sequences from values, where a value that is
none reads as a missing sequence.
-/
def lane? (kind : Kind) (s : Sequence) : Option (List Register) :=
  match kind, s with
  | .int, .ints xs => some (xs.map .int)
  | .float, .floats xs => some (xs.map .float)
  | .float, .ints xs => some (xs.map fun n => .float (.ofInt64 n))
  | .object, .objects xs => some (xs.map fun v => match v with
    | .seq inner => .seq (some inner)
    | _ => .seq none)
  | _, _ => none

/-- A result as an element of a kind; a missing sequence is none. -/
def element (kind : Kind) (r : Register) : Except Fault Value :=
  match kind with
  | .int => .ok (.int r.toInt)
  | .float => .ok (.float r.toFloat)
  | .object => match r.toSeq with
    | some s => .ok (.seq s)
    | none => .error (.mismatch .sequence .null)

/-- The sequence of elements of a kind. -/
def collect (kind : Kind) (elements : List Value) : Sequence :=
  match kind with
  | .int => .ints (elements.map fun v => match v with
    | .int n => n
    | _ => 0)
  | .float => .floats (elements.map fun v => match v with
    | .float x => x
    | _ => .zero)
  | .object => .objects elements

/-- Run a step of a traversal; a failure recorded by then comes before the step's own. -/
def guarded {α : Type} (step : Native (Except Fault α)) : ExceptT Fault Native α :=
  ExceptT.mk do
    let r ← step
    let record ← get
    match record.check with
    | .error e => return .error e
    | .ok () => return r

/-- The result of a traversal; a fault is recorded, and the neutral register stands in. -/
def settle (kind : Kind) (run : Native (Except Fault Register)) : Native Register := do
  match ← run with
  | .ok r => return r
  | .error e =>
    fail e
    return .neutral kind

/--
Begin a traversal of a sequence on a lane of a kind: none if the sequence is missing, something has
failed already, or the lane cannot read it, which is recorded.
-/
def openLane (kind : Kind) (seq : Option Sequence) : Native (Option (List Register)) := do
  match seq with
  | none => return none
  | some s =>
    if ← hasFailed then
      return none
    match lane? kind s with
    | some lane => return some lane
    | none =>
      fail (.mismatch (laneShape kind) (sequenceShape s.kind))
      return none

/-- Apply `f` to every element of a sequence. -/
def mapLanes (mode : Mode) (source target : Kind) (f : Register → Native Register)
    (seq : Option Sequence) : Native Register := do
  match ← openLane source seq with
  | none => return .seq none
  | some lane =>
    settle .object do
      let elements ← (mode.mapM (fun r => guarded do return element target (← f r)) lane).run
      return elements.map fun es => .seq (some (collect target es))

/-- Fold a sequence into `neutral` by `f`, on a lane of the accumulator's kind. -/
def reduceLanes (mode : Mode) (acc : Kind) (f : Register → Register → Native Register)
    (neutral : Register) (seq : Option Sequence) : Native Register := do
  match ← openLane acc seq with
  | none => return .neutral acc
  | some lane =>
    settle acc
      (mode.reduceM (fun a b => guarded do return Except.ok (← f a b)) neutral lane).run

theorem recorded_fail {r : FaultRecord} {e e' : Fault} (h : r.first = some e) :
    ((fail e').run r).2.first = some e :=
  FaultRecord.first_fail_of_some h e'

/-! ## Names of the operations -/

/-- The symbols of the operations that compiled code calls. -/
def symbols : List String :=
  ["mrc_seq_retain", "mrc_range", "mrc_range_inclusive", "mrc_int_div", "mrc_int_pow",
    "mrc_float_pow", "mrc_reduce_int", "mrc_reduce_float", "mrc_map_ii", "mrc_map_if",
    "mrc_map_io", "mrc_map_fi", "mrc_map_ff", "mrc_map_fo", "mrc_map_oi", "mrc_map_of",
    "mrc_map_oo"]

end Native

/-! ## Running code -/

/-- How a native machine stores values of a type. -/
def Ty.nativeKind (t : Ty) : Kind :=
  t.kind?.getD .int

namespace Code

/-- The register of an operation on the given argument registers. -/
def execute (mode : Mode) : Code → List Register → Native Register
  | .param slot, args => return args.getD slot (.int 0)
  | .int n, _ => return .int n
  | .float x, _ => return .float x
  | .neg kind operand, args => do
    let r ← operand.execute mode args
    match kind with
    | .float => return .float (-r.toFloat)
    | _ => return .int (-r.toInt)
  | .arith kind op left right, args => do
    let r ← left.execute mode args
    let s ← right.execute mode args
    match kind with
    | .float => return .float (Arith.floatOp op r.toFloat s.toFloat)
    | _ => return .int (← Native.checked (Arith.intOp op r.toInt s.toInt))
  | .cast source target operand, args => do
    let r ← operand.execute mode args
    if source = target then
      return r
    else if target = .float then
      return .float (.ofInt64 r.toInt)
    else
      return .int r.toFloat.toInt64
  | .range closed first last, args => do
    let a ← first.execute mode args
    let b ← last.execute mode args
    if closed then
      return .seq (← Native.rangeClosed a.toInt b.toInt)
    else
      return .seq (← Native.range a.toInt b.toInt)
  | .map seq _ body source target, args => do
    let s ← seq.execute mode args
    Native.mapLanes mode source.nativeKind target.nativeKind (fun r => body.execute mode [r])
      s.toSeq
  | .reduce seq neutral _ body _ acc, args => do
    let s ← seq.execute mode args
    let start ← neutral.execute mode args
    Native.reduceLanes mode (Ty.scalar acc).nativeKind (fun a b => body.execute mode [a, b])
      start s.toSeq

end Code

namespace Native

/-- The register of an argument that has to be of a kind. -/
def argument (kind : Kind) (v : Value) : Except Fault Register :=
  match kind, v with
  | .int, .int n => .ok (.int n)
  | .float, .float x => .ok (.float x)
  | .object, .seq s => .ok (.seq (some s))
  | .int, v => .error (.mismatch .int v.shape)
  | .float, v => .error (.mismatch .float v.shape)
  | .object, v => .error (.mismatch .sequence v.shape)

/-- The registers of all arguments: first their number is checked, then their kinds in order. -/
def arguments (params : List Ty) (args : List Value) : Except Fault (List Register) :=
  if args.length = params.length then
    (args.zip params).mapM fun p => argument p.2.nativeKind p.1
  else
    .error (.mismatch .matchingArguments .otherArguments)

/-- Call a function: the first recorded fault, or else its result. -/
def call (mode : Mode) (f : Function) (args : List Value) : Except Fault Value := do
  let registers ← arguments f.profile.params args
  let (result, record) := (f.body.execute mode registers).run .clear
  match record.first with
  | some e => .error e
  | none => element f.profile.result.nativeKind result

end Native
end SeqCalc
