import SeqCalc.Code.Backend
import SeqCalc.Typing.Inference

/-!
# Lowering

Checked expressions become slot code.  Identifiers become argument positions, and wherever the
types of operands differ from the type they are promoted to, a cast is put in.  The types come from
the table that inference filled, so a node shared by several parents is lowered by the type of its
last visit.

Main results:

- `slot?_eq_some_iff`: a name is lowered to the first position that has it.
-/

namespace SeqCalc

/-! ## Slots -/

/-- The position of a name among the parameters of a function. -/
def slot? (names : List String) (name : String) : Option Nat :=
  names.findIdx? (· == name)

theorem slot?_eq_some_iff {names : List String} {name : String} {i : Nat} :
    slot? names name = some i ↔
      names[i]? = some name ∧ ∀ j, j < i → names[j]? ≠ some name := by
  simp only [slot?, List.findIdx?_eq_some_iff_getElem, List.getElem?_eq_some_iff, beq_iff_eq,
    ne_eq, not_exists]
  constructor
  · rintro ⟨h, hi, hj⟩
    exact ⟨⟨h, hi⟩, fun j hji hlt => by simpa using hj j hji⟩
  · rintro ⟨⟨h, hi⟩, hj⟩
    exact ⟨h, hi, fun j hji => by simpa using hj j hji (by omega)⟩

/-! ## Types of nodes -/

namespace TypeTable

/-- The scalar type of a node. -/
def scalarOf (t : TypeTable) (id : NodeId) : Except BackendError Scalar :=
  match t.get id with
  | .scalar .unknown => .error (.malformed .unknownType)
  | .scalar s => .ok s
  | .seq _ _ => .error (.malformed .scalarExpected)

/-- The element type of a node that is mapped over. -/
def elementOf (t : TypeTable) (id : NodeId) : Except BackendError Ty :=
  match (t.get id).element? with
  | some element => .ok element
  | none => .error (.malformed .mapOverScalar)

/-- The element type of a node that is reduced. -/
def scalarElementOf (t : TypeTable) (id : NodeId) : Except BackendError Scalar :=
  match (t.get id).element?.bind Ty.scalar? with
  | some element => .ok element
  | none => .error (.malformed .reduceOverNested)

end TypeTable

/-! ## Expressions -/

/-- A function under construction: its profile and the names of its parameters. -/
structure Scaffold where
  profile : Profile
  names : List String
deriving DecidableEq, Repr, Inhabited

/-- Code whose own type is that of `id`, cast to `target` if the types differ. -/
def Scaffold.coerce (b : Backend) (types : TypeTable) (f : Scaffold) (id : NodeId)
    (target : Scalar) (code : Code) : Except BackendError Code := do
  let own ← types.scalarOf id
  if own = target then
    return code
  else
    b.build f.profile (.cast own target code)

mutual

/-- The code of an expression inside a function. -/
def Expr.lower (b : Backend) (types : TypeTable) (f : Scaffold) : Expr → Except BackendError Code
  | .int _ value => b.build f.profile (.int value)
  | .float _ bits => b.build f.profile (.float ⟨bits⟩)
  | .ident _ name =>
    match slot? f.names name with
    | some slot => b.build f.profile (.param slot)
    | none => .error (.unresolved name)
  | .unary site op operand => do
    let code ← operand.lower b types f
    match op with
    | .plus => return code
    | .neg =>
      let kind ← types.scalarOf site.id
      b.build f.profile (.neg kind code)
  | .binary site op left right => do
    let kind ← types.scalarOf site.id
    let l ← left.lower b types f >>= f.coerce b types left.id kind
    let r ← right.lower b types f >>= f.coerce b types right.id kind
    b.build f.profile (.arith kind op l r)
  | .range _ first last => do
    let a ← first.lower b types f
    let z ← last.lower b types f
    b.build f.profile (.range true a z)
  | .map _ seq function => do
    let source ← types.elementOf seq.id
    let target := types.get function.id
    let s ← seq.lower b types f
    let profile : Profile := ⟨target, [source]⟩
    let body ← function.lowerFunction b types profile
    b.build f.profile (.map s profile body source target)
  | .reduce site seq neutral function => do
    let acc ← types.scalarOf site.id
    let element ← types.scalarElementOf seq.id
    let s ← seq.lower b types f
    let n ← neutral.lower b types f >>= f.coerce b types neutral.id acc
    let profile : Profile := ⟨.scalar acc, [.scalar acc, .scalar acc]⟩
    let body ← function.lowerFunction b types profile
    b.build f.profile (.reduce s n profile body element acc)
  | .lambda _ _ _ => .error (.malformed .strayLambda)

/-- The body of a function literal as a nested function that sees its own parameters alone. -/
def Expr.lowerFunction (b : Backend) (types : TypeTable) (profile : Profile) :
    Expr → Except BackendError Code
  | .lambda _ params body =>
    if params.length = profile.params.length then
      b.wrap profile (body.lower b types ⟨profile, params⟩)
    else
      .error (.malformed .lambdaArity)
  | _ => .error (.malformed .lambdaExpected)

end

/-! ## Statements -/

/-- The function that a statement's inputs are passed to and its output's value comes from. -/
def Signature.profile (s : Signature) : Profile :=
  ⟨s.output.ty, s.inputs.map Variable.ty⟩

/-- The function of a statement with the given signature and value. -/
def Signature.lower (b : Backend) (types : TypeTable) (s : Signature) (value : Expr) :
    Except BackendError Function := do
  let body ← b.wrap s.profile
    (b.addressed (value.lower b types ⟨s.profile, s.inputs.map Variable.name⟩))
  return ⟨s.profile, body⟩

end SeqCalc
