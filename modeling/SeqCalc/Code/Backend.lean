import SeqCalc.Code.Basic

/-!
# Backends

Two machines run slot code.  The interpreter evaluates it as it stands; the native machine works
on bare words and so wants to know the representation of everything in advance.  A backend takes a
function in three steps: it opens the function on its profile, admits each operation once its parts
are there, and closes the function on its body.  A nested function has its arguments in registers,
but a statement has them in memory, and before it is closed its loads have to be addressed.  The
first refusal is the answer.
-/

namespace SeqCalc

/-! ## Refusals -/

/-- Code that no checked program gives rise to. -/
inductive Malformation where
  | mapOverScalar
  | reduceOverNested
  | strayLambda
  | lambdaExpected
  | lambdaArity
  | unknownType
  | scalarExpected
  | slotOutOfRange
  | mapArity
  | reduceArity
deriving DecidableEq, Repr, Inhabited

def Malformation.text : Malformation → String
  | .mapOverScalar => "map over a scalar"
  | .reduceOverNested => "reduce over non-scalar elements"
  | .strayLambda => "lambda outside of map/reduce"
  | .lambdaExpected => "expected a lambda"
  | .lambdaArity => "lambda arity"
  | .unknownType => "expression has unknown type"
  | .scalarExpected => "expected a scalar"
  | .slotOutOfRange => "parameter slot out of range"
  | .mapArity => "map lambda must take one parameter"
  | .reduceArity => "reduce lambda must take two parameters"

/-- The machines. -/
inductive Backend where
  | interp
  | native
deriving DecidableEq, Repr, Inhabited

/-- The name of a machine in options and messages. -/
def Backend.name : Backend → String
  | .interp => "interp"
  | .native => "jit"

/-- Why a backend does not take a function. -/
inductive BackendError where
  /-- A representation that the machine has no operations for. -/
  | unsupported (backend : Backend) (kind : Scalar)
  /-- A fold of floats into an integer. -/
  | floatsIntoInt (backend : Backend)
  /-- A name without a slot. -/
  | unresolved (name : String)
  | malformed (what : Malformation)
  /-- A word where a float belongs, or the other way round. -/
  | codegen
deriving DecidableEq, Repr, Inhabited

def BackendError.message : BackendError → String
  | .unsupported backend kind =>
    s!"backend `{backend.name}` has no arithmetic for {kind.inspect}"
  | .floatsIntoInt backend =>
    s!"backend `{backend.name}` does not implement `reduce of floats into an int accumulator`"
  | .unresolved name => s!"no slot for `{name}`"
  | .malformed what => s!"malformed expression: {what.text}"
  | .codegen => "code generation failed: Compilation error: Verifier errors"

/-! ## Registers -/

/-- The two classes of native registers: words hold integers and sequences. -/
inductive RegisterClass where
  | word
  | float
deriving DecidableEq, Repr, Inhabited

def RegisterClass.ofTy : Ty → RegisterClass
  | .scalar .float => .float
  | _ => .word

def RegisterClass.ofScalar (s : Scalar) : RegisterClass :=
  .ofTy (.scalar s)

/-- The class of an operation's result, if all its operands have the classes it needs. -/
def Code.registerClass? (params : List Ty) : Code → Option RegisterClass
  | .param slot => params[slot]?.map .ofTy
  | .int _ => some .word
  | .float _ => some .float
  | .neg kind operand => do
    let c ← operand.registerClass? params
    if c = .ofScalar kind then some c else none
  | .arith kind _ left right => do
    let c ← left.registerClass? params
    let d ← right.registerClass? params
    if c = .ofScalar kind ∧ d = c then some c else none
  | .cast source target operand => do
    let c ← operand.registerClass? params
    if source = target then some c
    else if c = .ofScalar source then some (.ofScalar target) else none
  | .range _ first last => do
    let c ← first.registerClass? params
    let d ← last.registerClass? params
    if c = .word ∧ d = .word then some .word else none
  | .map seq _ _ _ _ => do
    let c ← seq.registerClass? params
    if c = .word then some .word else none
  | .reduce seq neutral _ _ _ acc => do
    let c ← seq.registerClass? params
    let d ← neutral.registerClass? params
    if c = .word ∧ d = .ofScalar acc then some d else none

/-! ## Taking a function -/

namespace Backend

/-- The representation of a type has to be known. -/
def requireKind (b : Backend) (t : Ty) : Except BackendError Unit :=
  match t.kind? with
  | some _ => .ok ()
  | none => .error (.unsupported b .unknown)

def requireNumeric (b : Backend) (s : Scalar) : Except BackendError Unit :=
  b.requireKind (.scalar s)

/-- Start a function. -/
def opens (b : Backend) (p : Profile) : Except BackendError Unit :=
  match b with
  | .interp => .ok ()
  | .native => do
    b.requireKind p.result
    p.params.forM b.requireKind

/-- Admit an operation of a function with profile `p`, after its parts. -/
def admits (b : Backend) (p : Profile) : Code → Except BackendError Unit
  | .param slot =>
    -- the loads of a statement are addressed only when its body is complete
    if slot < p.params.length then .ok () else .error (.malformed .slotOutOfRange)
  | .int _ | .float _ | .range _ _ _ => .ok ()
  | .neg kind _ => b.requireNumeric kind
  | .arith kind _ _ _ => b.requireNumeric kind
  | .cast source target _ => do
    b.requireNumeric source
    b.requireNumeric target
  | .map _ profile _ source target =>
    match b with
    | .interp => b.requireKind target
    | .native =>
      if profile.params.length = 1 then do
        b.requireKind source
        b.requireKind target
      else
        .error (.malformed .mapArity)
  | .reduce _ _ profile _ element acc =>
    match b with
    | .interp => do
      b.requireNumeric element
      b.requireNumeric acc
    | .native =>
      if profile.params.length = 2 then do
        b.requireNumeric element
        b.requireNumeric acc
        if element = .float ∧ acc = .int then .error (.floatsIntoInt b)
      else
        .error (.malformed .reduceArity)

/--
Whether a statement can load the argument at a slot.  Eight bytes of memory lie before it for each
slot before it, and the load has that offset in a signed word of 32 bits.
-/
def inReach (slot : Nat) : Bool :=
  slot * 8 ≤ Int32.maxValue.toNatClampNeg

/-- Address the loads of a statement with the given body. -/
def address (b : Backend) (body : Code) : Except BackendError Unit :=
  match b with
  | .interp => .ok ()
  | .native => if body.loads.all inReach then .ok () else .error (.malformed .slotOutOfRange)

/-- The body of a statement that `make` builds, with its loads addressed. -/
def addressed (b : Backend) (make : Except BackendError Code) : Except BackendError Code := do
  let body ← make
  b.address body
  return body

/-- Finish a function with its body. -/
def closes (b : Backend) (p : Profile) (body : Code) : Except BackendError Unit :=
  match b with
  | .interp => .ok ()
  | .native =>
    if body.registerClass? p.params = some (.ofTy p.result) then .ok () else .error .codegen

/-- An operation, if the backend admits it. -/
def build (b : Backend) (p : Profile) (code : Code) : Except BackendError Code := do
  b.admits p code
  return code

/-- A function with the given profile around the body that `make` builds. -/
def wrap (b : Backend) (p : Profile) (make : Except BackendError Code) :
    Except BackendError Code := do
  b.opens p
  let body ← make
  b.closes p body
  return body

/-- Take ready-made code of a function with profile `p`, part by part from left to right. -/
def takeCode (b : Backend) (p : Profile) : Code → Except BackendError Unit
  | .param slot => b.admits p (.param slot)
  | .int n => b.admits p (.int n)
  | .float x => b.admits p (.float x)
  | .neg kind operand => do
    b.takeCode p operand
    b.admits p (.neg kind operand)
  | .arith kind op left right => do
    b.takeCode p left
    b.takeCode p right
    b.admits p (.arith kind op left right)
  | .cast source target operand => do
    b.takeCode p operand
    b.admits p (.cast source target operand)
  | .range closed first last => do
    b.takeCode p first
    b.takeCode p last
    b.admits p (.range closed first last)
  | .map seq profile body source target => do
    b.takeCode p seq
    b.opens profile
    b.takeCode profile body
    b.closes profile body
    b.admits p (.map seq profile body source target)
  | .reduce seq neutral profile body element acc => do
    b.takeCode p seq
    b.takeCode p neutral
    b.opens profile
    b.takeCode profile body
    b.closes profile body
    b.admits p (.reduce seq neutral profile body element acc)

/-- Take a ready-made function as a statement. -/
def take (b : Backend) (f : Function) : Except BackendError Unit := do
  b.opens f.profile
  b.takeCode f.profile f.body
  b.address f.body
  b.closes f.profile f.body

end Backend
end SeqCalc
