import SeqCalc.Program.Expr
import SeqCalc.Typing.Mistake
import SeqCalc.Typing.Variable

/-!
# Type inference

Statements are inferred in order against one growing scope, function literals against a scope that
holds their parameters alone.  Every expression gets a type, `unknown` when it is wrong, and an
operand that is unknown already passes in silence, so that each mistake is reported once.

Inference reads nothing that it writes: besides a type it yields findings, that is the complaints,
the visits of nodes with the type each visit gave, and the variables read, all in order.

Main results:

- `TypeTable.get_set`: what recording a visit does to the table of types.
- `Inferred.findings_bind`: the findings of two steps are those of the first and then those of the
  second.
- `Inferred.runFrom_bind`: run from a state, each step leaves its findings before the next begins.
-/

namespace SeqCalc

/-! ## The table of types -/

/-- The type of every node of a program; nodes that were never visited are unknown. -/
structure TypeTable where
  types : Array Ty
deriving DecidableEq, Repr, Inhabited

namespace TypeTable

/-- A table for `count` nodes, none of them visited. -/
def unvisited (count : Nat) : TypeTable :=
  ⟨Array.replicate count .unknown⟩

def get (t : TypeTable) (id : NodeId) : Ty :=
  t.types.getD id.toNat .unknown

/-- Record a type; nodes beyond the table are not recorded. -/
def set (t : TypeTable) (id : NodeId) (ty : Ty) : TypeTable :=
  ⟨t.types.setIfInBounds id.toNat ty⟩

/-- Record visits in order, so that the last visit of a node counts. -/
def record (t : TypeTable) (visits : List (NodeId × Ty)) : TypeTable :=
  visits.foldl (fun t v => t.set v.1 v.2) t

theorem get_set (t : TypeTable) (i j : NodeId) (ty : Ty) :
    (t.set i ty).get j = if i = j ∧ i.toNat < t.types.size then ty else t.get j := by
  have hij : i = j ↔ i.toNat = j.toNat := by
    cases i
    cases j
    simp [NodeId.toNat, UInt32.toNat_inj]
  simp only [get, set, Array.getD_eq_getD_getElem?, Array.getElem?_setIfInBounds, hij]
  by_cases h : i.toNat = j.toNat
  · by_cases hlt : j.toNat < t.types.size
    · simp [h, hlt]
    · simp [h, hlt]
  · simp [h]

end TypeTable

/-! ## Findings -/

/-- What a traversal finds out besides a type. -/
structure Findings where
  complaints : List Complaint
  visits : List (NodeId × Ty)
  reads : List Variable
deriving DecidableEq, Repr, Inhabited

namespace Findings

def empty : Findings :=
  ⟨[], [], []⟩

def append (f g : Findings) : Findings :=
  ⟨f.complaints ++ g.complaints, f.visits ++ g.visits, f.reads ++ g.reads⟩

instance : Append Findings :=
  ⟨append⟩

end Findings

/-- A value together with the findings on the way to it. -/
structure Inferred (α : Type) where
  value : α
  findings : Findings
deriving Repr, DecidableEq

namespace Inferred

instance : Monad Inferred where
  pure a := ⟨a, .empty⟩
  bind x f := ⟨(f x.value).value, x.findings ++ (f x.value).findings⟩

@[simp]
theorem value_pure {α : Type} (a : α) : (pure a : Inferred α).value = a :=
  rfl

@[simp]
theorem findings_pure {α : Type} (a : α) : (pure a : Inferred α).findings = .empty :=
  rfl

@[simp]
theorem value_bind {α β : Type} (x : Inferred α) (f : α → Inferred β) :
    (x >>= f).value = (f x.value).value :=
  rfl

@[simp]
theorem findings_bind {α β : Type} (x : Inferred α) (f : α → Inferred β) :
    (x >>= f).findings = x.findings ++ (f x.value).findings :=
  rfl

/-- Make a complaint. -/
def complain (span : Span) (mistake : Mistake) : Inferred Unit :=
  ⟨(), { Findings.empty with complaints := [⟨span, mistake⟩] }⟩

/-- Record the type that a visit gives to a node. -/
def visit (id : NodeId) (ty : Ty) : Inferred Unit :=
  ⟨(), { Findings.empty with visits := [(id, ty)] }⟩

/-- Note that a variable is read. -/
def read (v : Variable) : Inferred Unit :=
  ⟨(), { Findings.empty with reads := [v] }⟩

end Inferred

/-! ## Expressions -/

/-- Where identifiers are looked up, and whether that is inside a function literal. -/
structure Env where
  scope : Scope
  inLambda : Bool
deriving DecidableEq, Repr, Inhabited

namespace Env

/-- The type of an identifier; outside of function literals the variable counts as read. -/
def resolve (env : Env) (site : Site) (name : String) : Inferred Ty := do
  match env.scope.lookup? name with
  | some v =>
    if !env.inLambda then Inferred.read v
    return v.ty
  | none =>
    Inferred.complain site.span (.undefined name env.inLambda)
    return .unknown

end Env

/-- The element type of an operand that should be a sequence. -/
def elementOf (span : Span) (ty : Ty) : Inferred Ty := do
  match ty.element? with
  | some element => return element
  | none =>
    if !ty.isUnknown then Inferred.complain span (.sequenceExpected ty)
    return .unknown

/-- A range bound has to be an integer. -/
def checkBound (span : Span) (ty : Ty) : Inferred Unit := do
  if ty ≠ .int ∧ !ty.isUnknown then Inferred.complain span (.badRangeBound ty)

/-- The type of a binary operator's result. -/
def combine (site : Site) (op : BinaryOp) (left right : Ty) : Inferred Ty := do
  match left.scalar?, right.scalar? with
  | some p, some q => return .scalar (p.promote q)
  | _, _ =>
    if !(left.isUnknown || right.isUnknown) then
      Inferred.complain site.span (.badOperands op left right)
    return .unknown

/-- The accumulator type of `reduce`: the common type of its elements and its neutral. -/
def accumulator (seqSpan neutralSpan : Span) (element neutral : Ty) : Inferred Ty := do
  match element.scalar?, neutral.scalar? with
  | some p, some q => return .scalar (p.promote q)
  | _, _ =>
    if element.isSequence then Inferred.complain seqSpan (.scalarExpected .element element)
    if neutral.isSequence then Inferred.complain neutralSpan (.scalarExpected .neutral neutral)
    return .unknown

/--
The scope of a function literal: its parameters with the types given to them, one after the other.
Parameters without a given type are unknown; a repeated parameter keeps its first type.
-/
def bindParams (span : Span) (scope : Scope) : List String → List Ty → Inferred Scope
  | [], _ => pure scope
  | name :: names, given => do
    match scope.define ⟨name, given.headD .unknown⟩ with
    | .ok wider => bindParams span wider names given.tail
    | .error _ =>
      Inferred.complain span (.alreadyDefined name)
      bindParams span scope names given.tail

mutual

/-- The type of an expression. -/
def Expr.infer (env : Env) : Expr → Inferred Ty
  | .int site _ => do
    Inferred.visit site.id .int
    return .int
  | .float site _ => do
    Inferred.visit site.id .float
    return .float
  | .ident site name => do
    let ty ← env.resolve site name
    Inferred.visit site.id ty
    return ty
  | .unary site op operand => do
    let operandTy ← operand.infer env
    if operandTy.isSequence then Inferred.complain site.span (.badOperand op operandTy)
    let ty := if operandTy.isSequence then .unknown else operandTy
    Inferred.visit site.id ty
    return ty
  | .binary site op left right => do
    let leftTy ← left.infer env
    let rightTy ← right.infer env
    let ty ← combine site op leftTy rightTy
    Inferred.visit site.id ty
    return ty
  | .range site first last => do
    let firstTy ← first.infer env
    checkBound first.span firstTy
    let lastTy ← last.infer env
    checkBound last.span lastTy
    let ty := Ty.int.sequenceOf
    Inferred.visit site.id ty
    return ty
  | .map site seq function => do
    let seqTy ← seq.infer env
    let element ← elementOf seq.span seqTy
    let body ← function.inferFunction .map [element]
    let ty := if body.1.isUnknown then .unknown else body.1.sequenceOf
    Inferred.visit site.id ty
    return ty
  | .reduce site seq neutral function => do
    let seqTy ← seq.infer env
    let neutralTy ← neutral.infer env
    let element ← elementOf seq.span seqTy
    let acc ← accumulator seq.span neutral.span element neutralTy
    let body ← function.inferFunction .reduce [acc, acc]
    if !acc.isUnknown && !body.1.isUnknown && body.1 != acc then
      Inferred.complain body.2 (.bodyMismatch acc body.1)
    Inferred.visit site.id acc
    return acc
  | .lambda site _ _ => do
    Inferred.complain site.span .strayLambda
    Inferred.visit site.id .unknown
    return .unknown

/--
The type and the span of the body of a function literal, given the types of its parameters.
Anything but a function literal is not even visited.
-/
def Expr.inferFunction (combinator : Combinator) (given : List Ty) : Expr → Inferred (Ty × Span)
  | .lambda site params body => do
    if params.length ≠ given.length then
      Inferred.complain site.span (.wrongArity combinator params.length)
    let scope ← bindParams site.span .empty params given
    let ty ← body.infer ⟨scope, true⟩
    Inferred.visit site.id ty
    return (ty, body.span)
  | e => do
    Inferred.complain e.span (.lambdaExpected combinator)
    return (.unknown, e.span)

end

/-! ## Statements -/

/-- The items of a list, each where it occurs first. -/
def firstUses {α : Type} [DecidableEq α] : List α → List α
  | [] => []
  | x :: xs => x :: (firstUses xs).filter (· ≠ x)

/-- What a statement writes, and what it reads in the order of first use. -/
structure Signature where
  output : Variable
  inputs : List Variable
deriving DecidableEq, Repr, Inhabited

/-- The signature of the statement at position `index`, and the scope after it. -/
def Stmt.infer (index : Nat) (scope : Scope) (s : Stmt) : Inferred (Signature × Scope) :=
  let body := s.value.infer ⟨scope, false⟩
  let inputs := firstUses body.findings.reads
  match s.target with
  | none => do
    let ty ← body
    return (⟨.printMarker index ty, inputs⟩, scope)
  | some name => do
    let ty ← body
    let output : Variable := ⟨name, ty⟩
    match scope.define output with
    | .ok wider => return (⟨output, inputs⟩, wider)
    | .error _ =>
      Inferred.complain s.span (.alreadyDefined name)
      return (⟨output, inputs⟩, scope)

/-- The signatures of statements from position `index` on. -/
def inferStmts (index : Nat) (scope : Scope) : List Stmt → Inferred (List Signature)
  | [] => pure []
  | s :: rest => do
    let (signature, scope) ← s.infer index scope
    let signatures ← inferStmts (index + 1) scope rest
    return signature :: signatures

/-! ## States -/

/-- What inference has left behind: the types of nodes, and the complaints in order. -/
structure InferenceState where
  table : TypeTable
  complaints : List Complaint
deriving DecidableEq, Repr, Inhabited

namespace Inferred

/-- Run inference from a state: visits are recorded in its table, complaints follow its own. -/
def runFrom {α : Type} (x : Inferred α) (s : InferenceState) : α × InferenceState :=
  (x.value, ⟨s.table.record x.findings.visits, s.complaints ++ x.findings.complaints⟩)

/-! Each step leaves its findings before the next one begins. -/

@[simp]
theorem runFrom_bind {α β : Type} (x : Inferred α) (f : α → Inferred β) (s : InferenceState) :
    (x >>= f).runFrom s = (f (x.runFrom s).1).runFrom (x.runFrom s).2 := by
  have hvisits : (x >>= f).findings.visits =
      x.findings.visits ++ (f x.value).findings.visits := rfl
  have hcomplaints : (x >>= f).findings.complaints =
      x.findings.complaints ++ (f x.value).findings.complaints := rfl
  simp only [runFrom, hvisits, hcomplaints, TypeTable.record, List.foldl_append,
    List.append_assoc, value_bind]

@[simp]
theorem runFrom_visit (id : NodeId) (ty : Ty) (s : InferenceState) :
    (visit id ty).runFrom s = ((), { s with table := s.table.set id ty }) := by
  simp [runFrom, visit, Findings.empty, TypeTable.record]

@[simp]
theorem runFrom_complain (span : Span) (mistake : Mistake) (s : InferenceState) :
    (complain span mistake).runFrom s =
      ((), { s with complaints := s.complaints ++ [⟨span, mistake⟩] }) :=
  rfl

end Inferred

/-! ## Programs -/

/-- The result of inferring a whole program. -/
structure TypedProgram where
  table : TypeTable
  signatures : List Signature
  complaints : List Complaint
deriving DecidableEq, Repr, Inhabited

namespace SoundProgram

/-- Infer every statement of a program. -/
def infer (p : SoundProgram) : TypedProgram :=
  let r := inferStmts 0 .empty p.stmts
  { table := (TypeTable.unvisited p.program.arena.nodes.size).record r.findings.visits
    signatures := r.value
    complaints := r.findings.complaints }

/-- Infer one node in a given scope, as inside a function literal; none if it is no node. -/
def inferNode (p : SoundProgram) (scope : Scope) (id : NodeId) (s : InferenceState) :
    Option (Ty × InferenceState) :=
  (p.program.arena.tree? id).map fun e => (e.infer ⟨scope, true⟩).runFrom s

/-- Infer nodes one after the other. -/
def inferEach (p : SoundProgram) (scope : Scope) :
    List NodeId → InferenceState → List Ty × InferenceState
  | [], s => ([], s)
  | id :: ids, s =>
    match p.inferNode scope id s with
    | none => p.inferEach scope ids s
    | some (ty, s) =>
      let (types, s) := p.inferEach scope ids s
      (ty :: types, s)

/-- The types of single nodes, the table that this leaves, and all complaints. -/
def inferNodes (p : SoundProgram) (scope : Scope) (ids : List NodeId) :
    List Ty × TypeTable × List Complaint :=
  let (types, s) := p.inferEach scope ids ⟨.unvisited p.program.arena.nodes.size, []⟩
  (types, s.table, s.complaints)

end SoundProgram
end SeqCalc
