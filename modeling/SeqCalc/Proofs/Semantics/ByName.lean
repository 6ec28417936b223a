import SeqCalc.Typing.Inference
import SeqCalc.Value.Arith
import SeqCalc.Value.Range

/-!
# Evaluation by name

What an expression means, said directly on its tree: names stand for the values that an environment
binds them to, operands are evaluated from left to right, and the first fault is the answer.  There
are no slots, no casts and no nested functions.  The types that inference finds decide which
operands are converted and how the results of a map are stored; the body of a function literal is
evaluated once per element, in an environment that has its parameters alone.

Expressions without a type have no meaning.  They answer with a mismatch, where they answer at all.
-/

namespace SeqCalc

/-! ## Environments -/

/-- Values by name. -/
def Bindings : Type :=
  String → Option Value

/-- The parameters of a function literal, bound to the values that it is applied to. -/
def Bindings.ofParams (params : List String) (values : List Value) : Bindings :=
  fun name => (params.zip values).lookup name

/-! ## Operators -/

namespace Value

/-- A number of type `own` as a number of type `target`: an integer becomes a float, no more. -/
def converted (own target : Ty) (v : Value) : Except Fault Value :=
  match own, target with
  | .scalar .int, .scalar .float => do
    return .float (.ofInt64 (← v.asInt))
  | _, _ => .ok v

/-- The negative of a number of a type. -/
def negative (t : Ty) (v : Value) : Except Fault Value := do
  match t with
  | .scalar .float => return .float (-(← v.asFloat))
  | _ => return .int (-(← v.asInt))

/--
A binary operator on numbers of two types.  If one of them is a float and the other one an integer,
the integer is converted; then the operator of the common type is applied.
-/
def combined (op : BinaryOp) (t u : Ty) (v w : Value) : Except Fault Value :=
  match t, u with
  | .scalar .int, .scalar .int => do
    return .int (← Arith.intOp op (← v.asInt) (← w.asInt))
  | .scalar .int, .scalar .float => do
    return .float (Arith.floatOp op (.ofInt64 (← v.asInt)) (← w.asFloat))
  | .scalar .float, .scalar .int => do
    return .float (Arith.floatOp op (← v.asFloat) (.ofInt64 (← w.asInt)))
  | .scalar .float, .scalar .float => do
    return .float (Arith.floatOp op (← v.asFloat) (← w.asFloat))
  | _, _ => .error (.mismatch v.shape w.shape)

end Value

/-- The sequence of some values of a type. -/
def Sequence.ofValues (t : Ty) (vs : List Value) : Except Fault Sequence :=
  match t with
  | .scalar .int => .ints <$> vs.mapM Value.asInt
  | .scalar .float => .floats <$> vs.mapM Value.asFloat
  | _ => .ok (.objects vs)

/-- The common type of two numbers. -/
def Ty.common : Ty → Ty → Ty
  | .scalar p, .scalar q => .scalar (p.promote q)
  | _, _ => .unknown

/-! ## Expressions -/

namespace Expr

/-- The type that inference finds for an expression in a scope. -/
def typeIn (scope : Scope) (e : Expr) : Ty :=
  (e.infer ⟨scope, true⟩).value

/-- The type of the elements of an expression in a scope. -/
def elementTypeIn (scope : Scope) (e : Expr) : Ty :=
  (e.typeIn scope).element?.getD .unknown

/-- The scope of the body of a function literal: its parameters alone, with the given types. -/
def paramScope (span : Span) (params : List String) (given : List Ty) : Scope :=
  (bindParams span .empty params given).value

/-- The type of what a function literal gives, from the types of what it is applied to. -/
def resultType (given : List Ty) : Expr → Ty
  | .lambda site params body => body.typeIn (paramScope site.span params given)
  | _ => .unknown

mutual

/-- The value of an expression, in a scope that has the types of its names. -/
def evaluate (scope : Scope) (ρ : Bindings) : Expr → Except Fault Value
  | .int _ value => .ok (.int value)
  | .float _ bits => .ok (.float ⟨bits⟩)
  | .ident _ name =>
    match ρ name with
    | some v => .ok v
    | none => .error (.unbound name)
  | .unary _ op operand => do
    let v ← operand.evaluate scope ρ
    match op with
    | .plus => return v
    | .neg => v.negative (operand.typeIn scope)
  | .binary _ op left right => do
    let v ← left.evaluate scope ρ
    let w ← right.evaluate scope ρ
    v.combined op (left.typeIn scope) (right.typeIn scope) w
  | .range _ first last => do
    let v ← first.evaluate scope ρ
    let w ← last.evaluate scope ρ
    return .seq (.ints (← Range.closed (← v.asInt) (← w.asInt)))
  | .map _ seq function => do
    let t := seq.elementTypeIn scope
    let s ← (← seq.evaluate scope ρ).asSeq
    let results ← s.elements.mapM fun v => function.applied [t] [v]
    return .seq (← Sequence.ofValues (function.resultType [t]) results)
  | .reduce _ seq neutral function => do
    let t := seq.elementTypeIn scope
    let u := neutral.typeIn scope
    let acc := t.common u
    let v ← seq.evaluate scope ρ
    let start ← neutral.evaluate scope ρ
    let items ← (← v.asSeq).elements.mapM (Value.converted t acc)
    items.foldlM (fun a b => function.applied [acc, acc] [a, b]) (← start.converted u acc)
  | .lambda _ _ _ => .error (.mismatch .matchingArguments .otherArguments)

/-- The value of a function literal on some values of the given types. -/
def applied (given : List Ty) (values : List Value) : Expr → Except Fault Value
  | .lambda site params body =>
    body.evaluate (paramScope site.span params given) (.ofParams params values)
  | _ => .error (.mismatch .matchingArguments .otherArguments)

end

end Expr

/-! ## Programs -/

/-- The scope after some statements, of which the first one is at position `index`. -/
def scopeAfter (index : Nat) (scope : Scope) : List Stmt → Scope
  | [] => scope
  | s :: rest => scopeAfter (index + 1) (s.infer index scope).value.2 rest

/-- The scope of the statement at a position: the variables that those before it define. -/
def SoundProgram.scopeAt (p : SoundProgram) (i : Nat) : Scope :=
  scopeAfter 0 .empty (p.stmts.take i)

end SeqCalc
