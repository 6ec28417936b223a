import SeqCalc.Proofs.Typing.Visits
import SeqCalc.Proofs.Typing.Walk

/-!
# The history of inference

Findings keep complaints, visits and reads apart, so they do not tell whether a complaint came
before a visit.  Here inference keeps one log of all that it does, in the order in which it does it;
the log also says which variables are declared, those among them that their scope refuses.  What is
left of a log when the order is forgotten are the findings.

Main results:

- `Expr.forget_inferLogged`: the log of an expression, and its findings.
- `SoundProgram.findings_history`: the history of a program, and its findings.
-/

namespace SeqCalc

/-! ## Events -/

/-- What inference does at one moment. -/
inductive TypingEvent where
  | complains (c : Complaint)
  | visits (id : NodeId) (ty : Ty)
  | reads (v : Variable)
  /-- A variable is given its type, whether or not its scope has room for the name. -/
  | declares (v : Variable)
deriving DecidableEq, Repr

namespace TypingEvent

def complaint? : TypingEvent → Option Complaint
  | complains c => some c
  | _ => none

def visit? : TypingEvent → Option (NodeId × Ty)
  | visits id ty => some (id, ty)
  | _ => none

def read? : TypingEvent → Option Variable
  | reads v => some v
  | _ => none

end TypingEvent

/-- The findings that a log leaves, each kind in order. -/
def Findings.ofLog (log : List TypingEvent) : Findings :=
  ⟨log.filterMap TypingEvent.complaint?, log.filterMap TypingEvent.visit?,
    log.filterMap TypingEvent.read?⟩

/-- A value together with the log of the way to it. -/
structure Logged (α : Type) where
  value : α
  log : List TypingEvent
deriving Repr, DecidableEq

namespace Logged

variable {α β : Type}

instance : Monad Logged where
  pure a := ⟨a, []⟩
  bind x f := ⟨(f x.value).value, x.log ++ (f x.value).log⟩

theorem log_bind (x : Logged α) (f : α → Logged β) :
    (x >>= f).log = x.log ++ (f x.value).log :=
  rfl

theorem value_bind (x : Logged α) (f : α → Logged β) : (x >>= f).value = (f x.value).value :=
  rfl

/-- A single event. -/
def emit (e : TypingEvent) : Logged Unit :=
  ⟨(), [e]⟩

def complain (span : Span) (mistake : Mistake) : Logged Unit :=
  emit (.complains ⟨span, mistake⟩)

/-- Make a complaint if there is reason to. -/
def complainIf (reason : Bool) (span : Span) (mistake : Mistake) : Logged Unit :=
  if reason then complain span mistake else pure ()

def visit (id : NodeId) (ty : Ty) : Logged Unit :=
  emit (.visits id ty)

def declare (v : Variable) : Logged Unit :=
  emit (.declares v)

/-- A step between visits that complains or reads, but not one and then the other. -/
def report (x : Inferred α) : Logged α :=
  ⟨x.value, x.findings.complaints.map .complains ++ x.findings.reads.map .reads⟩

/-- Leave out the order. -/
def forget (x : Logged α) : Inferred α :=
  ⟨x.value, .ofLog x.log⟩

@[simp]
theorem forget_pure (a : α) : (pure a : Logged α).forget = pure a :=
  rfl

@[simp]
theorem forget_bind (x : Logged α) (f : α → Logged β) :
    (x >>= f).forget = x.forget >>= fun a => (f a).forget := by
  change Inferred.mk _ (Findings.mk _ _ _) = Inferred.mk _ (Findings.mk _ _ _)
  simp only [value_bind, log_bind, List.filterMap_append]
  rfl

@[simp]
theorem forget_complain (span : Span) (m : Mistake) :
    (complain span m).forget = Inferred.complain span m :=
  rfl

@[simp]
theorem forget_complainIf (reason : Bool) (span : Span) (m : Mistake) :
    (complainIf reason span m).forget = Inferred.complainIf reason span m := by
  cases reason <;> rfl

@[simp]
theorem forget_visit (id : NodeId) (ty : Ty) : (visit id ty).forget = Inferred.visit id ty :=
  rfl

@[simp]
theorem forget_declare (v : Variable) : (declare v).forget = pure () :=
  rfl

theorem forget_report {x : Inferred α} (h : x.findings.visits = []) : (report x).forget = x := by
  rcases x with ⟨value, complaints, visits, reads⟩
  change visits = [] at h
  subst h
  simp [report, forget, Findings.ofLog, List.filterMap_map, Function.comp_def,
    TypingEvent.complaint?, TypingEvent.visit?, TypingEvent.read?]

@[simp]
theorem forget_resolve (env : Env) (site : Site) (name : String) :
    (report (env.resolve site name)).forget = env.resolve site name :=
  forget_report (visits_resolve env site name)

@[simp]
theorem forget_elementOf (span : Span) (t : Ty) :
    (report (elementOf span t)).forget = elementOf span t :=
  forget_report (visits_reads_elementOf span t).1

@[simp]
theorem forget_checkBound (span : Span) (t : Ty) :
    (report (checkBound span t)).forget = checkBound span t :=
  forget_report (visits_reads_checkBound span t).1

@[simp]
theorem forget_combine (site : Site) (op : BinaryOp) (t u : Ty) :
    (report (combine site op t u)).forget = combine site op t u :=
  forget_report (visits_reads_combine site op t u).1

@[simp]
theorem forget_accumulator (s₁ s₂ : Span) (t u : Ty) :
    (report (accumulator s₁ s₂ t u)).forget = accumulator s₁ s₂ t u :=
  forget_report (visits_reads_accumulator s₁ s₂ t u).1

end Logged

/-! ## Expressions -/

/-- The scope of a function literal; each of its parameters is declared before it is entered. -/
def bindParamsLogged (span : Span) (scope : Scope) : List String → List Ty → Logged Scope
  | [], _ => pure scope
  | name :: names, given => do
    let param : Variable := ⟨name, given.headD .unknown⟩
    Logged.declare param
    match scope.define param with
    | .ok wider => bindParamsLogged span wider names given.tail
    | .error _ =>
      Logged.complain span (.alreadyDefined name)
      bindParamsLogged span scope names given.tail

@[simp]
theorem forget_bindParamsLogged (span : Span) (names : List String) (scope : Scope)
    (given : List Ty) :
    (bindParamsLogged span scope names given).forget = bindParams span scope names given := by
  induction names generalizing scope given with
  | nil => rfl
  | cons name names ih =>
    simp only [bindParamsLogged, bindParams, Logged.forget_bind, Logged.forget_declare, pure_bind]
    cases scope.define ⟨name, given.headD .unknown⟩ with
    | ok wider => exact ih wider given.tail
    | error v => simp only [Logged.forget_bind, Logged.forget_complain, ih]

mutual

/-- The type of an expression. -/
def Expr.inferLogged (env : Env) : Expr → Logged Ty
  | .int site _ => do
    Logged.visit site.id .int
    return .int
  | .float site _ => do
    Logged.visit site.id .float
    return .float
  | .ident site name => do
    let ty ← Logged.report (env.resolve site name)
    Logged.visit site.id ty
    return ty
  | .unary site op operand => do
    let operandTy ← operand.inferLogged env
    Logged.complainIf operandTy.isSequence site.span (.badOperand op operandTy)
    let ty := if operandTy.isSequence then .unknown else operandTy
    Logged.visit site.id ty
    return ty
  | .binary site op left right => do
    let leftTy ← left.inferLogged env
    let rightTy ← right.inferLogged env
    let ty ← Logged.report (combine site op leftTy rightTy)
    Logged.visit site.id ty
    return ty
  | .range site first last => do
    let firstTy ← first.inferLogged env
    Logged.report (checkBound first.span firstTy)
    let lastTy ← last.inferLogged env
    Logged.report (checkBound last.span lastTy)
    let ty := Ty.int.sequenceOf
    Logged.visit site.id ty
    return ty
  | .map site seq function => do
    let seqTy ← seq.inferLogged env
    let element ← Logged.report (elementOf seq.span seqTy)
    let body ← function.inferFunctionLogged .map [element]
    let ty := if body.1.isUnknown then .unknown else body.1.sequenceOf
    Logged.visit site.id ty
    return ty
  | .reduce site seq neutral function => do
    let seqTy ← seq.inferLogged env
    let neutralTy ← neutral.inferLogged env
    let element ← Logged.report (elementOf seq.span seqTy)
    let acc ← Logged.report (accumulator seq.span neutral.span element neutralTy)
    let body ← function.inferFunctionLogged .reduce [acc, acc]
    Logged.complainIf (!acc.isUnknown && !body.1.isUnknown && body.1 != acc) body.2
      (.bodyMismatch acc body.1)
    Logged.visit site.id acc
    return acc
  | .lambda site _ _ => do
    Logged.complain site.span .strayLambda
    Logged.visit site.id .unknown
    return .unknown

/-- The type and the span of the body of a function literal, given the types of its parameters. -/
def Expr.inferFunctionLogged (combinator : Combinator) (given : List Ty) :
    Expr → Logged (Ty × Span)
  | .lambda site params body => do
    Logged.complainIf (decide (params.length ≠ given.length)) site.span
      (.wrongArity combinator params.length)
    let scope ← bindParamsLogged site.span .empty params given
    let ty ← body.inferLogged ⟨scope, true⟩
    Logged.visit site.id ty
    return (ty, body.span)
  | e => do
    Logged.complain e.span (.lambdaExpected combinator)
    return (.unknown, e.span)

end

namespace Expr

/-- Without the order, the log of an expression leaves its findings. -/
theorem forget_inferLogged (e : Expr) :
    (∀ env, (e.inferLogged env).forget = e.infer env) ∧
      ∀ c given, (e.inferFunctionLogged c given).forget = e.inferFunction c given := by
  induction e with
  | int | float | ident => simp [inferLogged, inferFunctionLogged, Expr.infer, inferFunction]
  | unary site op operand ih =>
    simp [inferLogged, inferFunctionLogged, infer_unary, inferFunction, ih.1]
  | binary site op left right ihl ihr =>
    simp [inferLogged, inferFunctionLogged, Expr.infer, inferFunction, ihl.1, ihr.1]
  | range site first last ihf ihl =>
    simp [inferLogged, inferFunctionLogged, Expr.infer, inferFunction, ihf.1, ihl.1]
  | map site seq function ihs ihf =>
    simp [inferLogged, inferFunctionLogged, Expr.infer, inferFunction, ihs.1, ihf.2]
  | reduce site seq neutral function ihs ihn ihf =>
    simp [inferLogged, inferFunctionLogged, infer_reduce, inferFunction, ihs.1, ihn.1, ihf.2]
  | lambda site params body ih =>
    simp [inferLogged, inferFunctionLogged, Expr.infer, inferFunction_lambda, ih.1]

end Expr

/-! ## Statements -/

/-- The signature of the statement at position `index`, and the scope after it. -/
def Stmt.inferLogged (index : Nat) (scope : Scope) (s : Stmt) : Logged (Signature × Scope) :=
  let body := s.value.inferLogged ⟨scope, false⟩
  let inputs := firstUses body.forget.findings.reads
  match s.target with
  | none => do
    let ty ← body
    let output : Variable := .printMarker index ty
    Logged.declare output
    return (⟨output, inputs⟩, scope)
  | some name => do
    let ty ← body
    let output : Variable := ⟨name, ty⟩
    Logged.declare output
    match scope.define output with
    | .ok wider => return (⟨output, inputs⟩, wider)
    | .error _ =>
      Logged.complain s.span (.alreadyDefined name)
      return (⟨output, inputs⟩, scope)

/-- The signatures of statements from position `index` on. -/
def inferStmtsLogged (index : Nat) (scope : Scope) : List Stmt → Logged (List Signature)
  | [] => pure []
  | s :: rest => do
    let (signature, scope) ← s.inferLogged index scope
    let signatures ← inferStmtsLogged (index + 1) scope rest
    return signature :: signatures

theorem Stmt.forget_inferLogged (s : Stmt) (index : Nat) (scope : Scope) :
    (s.inferLogged index scope).forget = s.infer index scope := by
  rcases s with ⟨target, value, span⟩
  have hvalue := value.forget_inferLogged.1 ⟨scope, false⟩
  cases target with
  | none => simp [Stmt.inferLogged, Stmt.infer, hvalue]
  | some name =>
    simp only [Stmt.inferLogged, Stmt.infer, Logged.forget_bind, hvalue, Logged.forget_declare,
      pure_bind]
    congr 1
    funext ty
    cases scope.define ⟨name, ty⟩ <;> simp

theorem forget_inferStmtsLogged (stmts : List Stmt) (index : Nat) (scope : Scope) :
    (inferStmtsLogged index scope stmts).forget = inferStmts index scope stmts := by
  induction stmts generalizing index scope with
  | nil => rfl
  | cons s rest ih => simp [inferStmtsLogged, inferStmts, s.forget_inferLogged, ih]

namespace SoundProgram

/-- All that inference does, in order. -/
def history (p : SoundProgram) : List TypingEvent :=
  (inferStmtsLogged 0 .empty p.stmts).log

/-- Without the order, the history of a program leaves its findings. -/
theorem findings_history (p : SoundProgram) :
    Findings.ofLog p.history = (inferStmts 0 .empty p.stmts).findings :=
  congrArg Inferred.findings (forget_inferStmtsLogged p.stmts 0 .empty)

theorem complaints_history (p : SoundProgram) :
    p.history.filterMap TypingEvent.complaint? = p.infer.complaints :=
  congrArg Findings.complaints p.findings_history

theorem visits_history (p : SoundProgram) : p.history.filterMap TypingEvent.visit? = p.visits :=
  congrArg Findings.visits p.findings_history

end SoundProgram
end SeqCalc
