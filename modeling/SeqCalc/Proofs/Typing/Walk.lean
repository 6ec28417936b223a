import SeqCalc.Proofs.Program.Unfolding
import SeqCalc.Proofs.Typing.Exactness

/-!
# Inference by position

Inference over trees says what is inferred.  An inference that goes through the node table instead
has to follow references, which may lead nowhere or round in circles.  Here every access to the
table is checked, and the depth of the walk is limited by an allowance.  From a node that a tree
unfolds, the walk finds every node that it asks for and needs no larger allowance than the position
of the node, and it comes to the result for the tree.

Main results:

- `Arena.inferAt_eq`: the walk from a node infers its tree.
- `SoundProgram.inferAll_eq`: the walk through a sound program infers its statements.
-/

namespace SeqCalc

/-! ## Laws of inference -/

namespace Findings

@[simp]
theorem append_empty (f : Findings) : f ++ empty = f := by
  rcases f with ⟨complaints, visits, reads⟩
  change Findings.mk (complaints ++ []) (visits ++ []) (reads ++ []) = _
  rw [List.append_nil, List.append_nil, List.append_nil]

theorem append_assoc (f g h : Findings) : f ++ g ++ h = f ++ (g ++ h) := by
  change Findings.mk _ _ _ = Findings.mk _ _ _
  rw [Findings.mk.injEq]
  exact ⟨List.append_assoc .., List.append_assoc .., List.append_assoc ..⟩

end Findings

namespace Inferred

instance : LawfulMonad Inferred :=
  LawfulMonad.mk' Inferred (fun x => congrArg (Inferred.mk x.value) x.findings.append_empty)
    (fun _ _ => rfl) fun x _ _ => congrArg (Inferred.mk _) (x.findings.append_assoc _ _)

@[simp]
theorem findings_map {α β : Type} (f : α → β) (x : Inferred α) :
    (f <$> x).findings = x.findings :=
  x.findings.append_empty

end Inferred

/-! ## Walks -/

/-- Why a walk through the node table does not come to its end. -/
inductive Stray where
  /-- The table was asked for a position that it does not have. -/
  | outside (id : NodeId)
  /-- The walk went deeper than it was allowed to. -/
  | endless
deriving DecidableEq, Repr

namespace Arena

/-- The node at a position. -/
def read {m : Type → Type} [Monad m] (a : Arena) (id : NodeId) : ExceptT Stray m Node :=
  match a.nodes[id.toNat]? with
  | some node => pure node
  | none => throw (.outside id)

theorem read_eq {m : Type → Type} [Monad m] {a : Arena} {id : NodeId} {node : Node}
    (h : a.nodes[id.toNat]? = some node) : (a.read id : ExceptT Stray m Node) = pure node := by
  rw [read, h]

mutual

/--
The type of the node at a position, where the walk may go as many levels down as the allowance says.
Spans are read for complaints alone; here they are read in any case.
-/
def inferAt (a : Arena) (env : Env) (id : NodeId) : Nat → ExceptT Stray Inferred Ty
  | 0 => throw .endless
  | allowance + 1 => do
    let node ← a.read id
    let site : Site := ⟨id, node.span⟩
    match node.kind with
    | .int _ => do
      Inferred.visit id .int
      return .int
    | .float _ => do
      Inferred.visit id .float
      return .float
    | .ident name => do
      let ty ← env.resolve site (a.name name)
      Inferred.visit id ty
      return ty
    | .unary op operand => do
      let operandTy ← a.inferAt env operand allowance
      Inferred.complainIf operandTy.isSequence node.span (.badOperand op operandTy)
      let ty := if operandTy.isSequence then .unknown else operandTy
      Inferred.visit id ty
      return ty
    | .binary op left right => do
      let leftTy ← a.inferAt env left allowance
      let rightTy ← a.inferAt env right allowance
      let ty ← combine site op leftTy rightTy
      Inferred.visit id ty
      return ty
    | .range first last => do
      let firstTy ← a.inferAt env first allowance
      checkBound (← a.read first).span firstTy
      let lastTy ← a.inferAt env last allowance
      checkBound (← a.read last).span lastTy
      let ty := Ty.int.sequenceOf
      Inferred.visit id ty
      return ty
    | .map seq function => do
      let seqTy ← a.inferAt env seq allowance
      let element ← elementOf (← a.read seq).span seqTy
      let body ← a.inferFunctionAt .map [element] function allowance
      let ty := if body.1.isUnknown then .unknown else body.1.sequenceOf
      Inferred.visit id ty
      return ty
    | .reduce seq neutral function => do
      let seqTy ← a.inferAt env seq allowance
      let neutralTy ← a.inferAt env neutral allowance
      let seqSpan := (← a.read seq).span
      let neutralSpan := (← a.read neutral).span
      let element ← elementOf seqSpan seqTy
      let acc ← accumulator seqSpan neutralSpan element neutralTy
      let body ← a.inferFunctionAt .reduce [acc, acc] function allowance
      Inferred.complainIf (!acc.isUnknown && !body.1.isUnknown && body.1 != acc) body.2
        (.bodyMismatch acc body.1)
      Inferred.visit id acc
      return acc
    | .lambda _ _ => do
      Inferred.complain node.span .strayLambda
      Inferred.visit id .unknown
      return .unknown

/-- The type and the span of the body of the function literal at a position. -/
def inferFunctionAt (a : Arena) (combinator : Combinator) (given : List Ty) (id : NodeId) :
    Nat → ExceptT Stray Inferred (Ty × Span)
  | 0 => throw .endless
  | allowance + 1 => do
    let node ← a.read id
    match node.kind with
    | .lambda range body => do
      let params := (a.paramNames range).map a.name
      Inferred.complainIf (decide (params.length ≠ given.length)) node.span
        (.wrongArity combinator params.length)
      let scope ← bindParams node.span .empty params given
      let ty ← a.inferAt ⟨scope, true⟩ body allowance
      Inferred.visit id ty
      return (ty, (← a.read body).span)
    | _ => do
      Inferred.complain node.span (.lambdaExpected combinator)
      return (.unknown, node.span)

end

/-- The signature of the statement at position `index`, and the scope after it. -/
def inferStmtAt (a : Arena) (allowance index : Nat) (scope : Scope) (s : StmtNode) :
    ExceptT Stray Inferred (Signature × Scope) :=
  let body := a.inferAt ⟨scope, false⟩ s.kind.value allowance
  let inputs := firstUses body.run.findings.reads
  match s.kind with
  | .print _ => do
    let ty ← body
    return (⟨.printMarker index ty, inputs⟩, scope)
  | .define name _ => do
    let ty ← body
    let output : Variable := ⟨a.name name, ty⟩
    match scope.define output with
    | .ok wider => return (⟨output, inputs⟩, wider)
    | .error _ =>
      Inferred.complain s.span (.alreadyDefined (a.name name))
      return (⟨output, inputs⟩, scope)

/-- The signatures of statements from position `index` on. -/
def inferStmtsAt (a : Arena) (allowance index : Nat) (scope : Scope) :
    List StmtNode → ExceptT Stray Inferred (List Signature)
  | [] => pure []
  | s :: rest => do
    let (signature, scope) ← a.inferStmtAt allowance index scope s
    let signatures ← a.inferStmtsAt allowance (index + 1) scope rest
    return signature :: signatures

end Arena

/-- Infer every statement of a program by position. -/
def Program.inferAll (p : Program) (allowance : Nat) : ExceptT Stray Inferred (List Signature) :=
  p.arena.inferStmtsAt allowance 0 .empty p.stmts.toList

/-! ## Walks and trees -/

namespace Arena

/-- The walk from a node comes to what is inferred for a tree, here and as a function literal. -/
def Infers (a : Arena) (id : NodeId) (e : Expr) : Prop :=
  (∀ env allowance, id.toNat < allowance → a.inferAt env id allowance = liftM (e.infer env)) ∧
    ∀ c given allowance, id.toNat < allowance →
      a.inferFunctionAt c given id allowance = liftM (e.inferFunction c given)

/-- What is not a function literal is refused as one; the walk has to find it as an expression. -/
theorem infers_of_operation {a : Arena} {id : NodeId} {kind : NodeKind} {span : Span} {e : Expr}
    (hnode : a.nodes[id.toNat]? = some ⟨kind, span⟩)
    (hkind : ∀ params body, kind ≠ .lambda params body)
    (hfunction : ∀ c given, e.inferFunction c given = do
      Inferred.complain span (.lambdaExpected c)
      return (.unknown, span))
    (h : ∀ env allowance, id.toNat ≤ allowance →
      a.inferAt env id (allowance + 1) = liftM (e.infer env)) : a.Infers id e := by
  constructor
  · intro env allowance hlt
    obtain ⟨n, rfl⟩ : ∃ n, allowance = n + 1 := ⟨allowance - 1, by omega⟩
    exact h env n (by omega)
  · intro c given allowance hlt
    obtain ⟨n, rfl⟩ : ∃ n, allowance = n + 1 := ⟨allowance - 1, by omega⟩
    rw [inferFunctionAt, read_eq hnode, hfunction]
    cases kind with
    | lambda params body => exact absurd rfl (hkind params body)
    | int | float | ident | unary | binary | range | map | reduce => simp

/-- The walk from a node of a table infers the tree that the table unfolds to there. -/
theorem inferAt_eq {a : Arena} {id : NodeId} {e : Expr} (h : a.Unfolds id e) : a.Infers id e := by
  induction h with
  | int hnode =>
    refine infers_of_operation hnode (by simp) (fun _ _ => rfl) ?_
    intro env allowance _
    simp [inferAt, read_eq hnode, Expr.infer]
  | float hnode =>
    refine infers_of_operation hnode (by simp) (fun _ _ => rfl) ?_
    intro env allowance _
    simp [inferAt, read_eq hnode, Expr.infer]
  | ident hnode =>
    refine infers_of_operation hnode (by simp) (fun _ _ => rfl) ?_
    intro env allowance _
    simp [inferAt, read_eq hnode, Expr.infer]
  | unary hnode hlt _ ih =>
    refine infers_of_operation hnode (by simp) (fun _ _ => rfl) ?_
    intro env allowance hle
    simp [inferAt, read_eq hnode, Expr.infer_unary, ih.1 env allowance (by omega)]
  | binary hnode hltl hltr _ _ ihl ihr =>
    refine infers_of_operation hnode (by simp) (fun _ _ => rfl) ?_
    intro env allowance hle
    simp [inferAt, read_eq hnode, Expr.infer, ihl.1 env allowance (by omega),
      ihr.1 env allowance (by omega)]
  | range hnode hltf hltl hfirst hlast ihf ihl =>
    refine infers_of_operation hnode (by simp) (fun _ _ => rfl) ?_
    intro env allowance hle
    rcases hfirst.root with ⟨firstNode, hfirstNode, hfirstSpan⟩
    rcases hlast.root with ⟨lastNode, hlastNode, hlastSpan⟩
    simp [inferAt, read_eq hnode, Expr.infer, ihf.1 env allowance (by omega),
      ihl.1 env allowance (by omega), read_eq hfirstNode, read_eq hlastNode, hfirstSpan, hlastSpan]
  | map hnode hlts hltf hseq _ ihs ihf =>
    refine infers_of_operation hnode (by simp) (fun _ _ => rfl) ?_
    intro env allowance hle
    rcases hseq.root with ⟨seqNode, hseqNode, hseqSpan⟩
    simp [inferAt, read_eq hnode, Expr.infer, ihs.1 env allowance (by omega),
      fun given => ihf.2 .map given allowance (by omega), read_eq hseqNode, hseqSpan]
  | reduce hnode hlts hltn hltf hseq hneutral _ ihs ihn ihf =>
    refine infers_of_operation hnode (by simp) (fun _ _ => rfl) ?_
    intro env allowance hle
    rcases hseq.root with ⟨seqNode, hseqNode, hseqSpan⟩
    rcases hneutral.root with ⟨neutralNode, hneutralNode, hneutralSpan⟩
    simp [inferAt, read_eq hnode, Expr.infer_reduce, ihs.1 env allowance (by omega),
      ihn.1 env allowance (by omega), fun given => ihf.2 .reduce given allowance (by omega),
      read_eq hseqNode, read_eq hneutralNode, hseqSpan, hneutralSpan]
  | lambda hnode hlt hbody ih =>
    rcases hbody.root with ⟨bodyNode, hbodyNode, hbodySpan⟩
    constructor
    · rintro env (_ | allowance) hle
      · omega
      · simp [inferAt, read_eq hnode, Expr.infer]
    · rintro c given (_ | allowance) hle
      · omega
      · simp [inferFunctionAt, read_eq hnode, Expr.inferFunction_lambda, read_eq hbodyNode,
          hbodySpan, fun env => ih.1 env allowance (by omega)]

/-- The walk through a statement infers the statement over trees. -/
theorem inferStmtAt_eq {a : Arena} {n : StmtNode} {s : Stmt} (h : n.Unfolds a s) {allowance : Nat}
    (hlt : n.kind.value.toNat < allowance) (index : Nat) (scope : Scope) :
    a.inferStmtAt allowance index scope n = liftM (s.infer index scope) := by
  have hbody := (inferAt_eq h.value).1 ⟨scope, false⟩ allowance hlt
  have htarget := h.target
  have hspan := h.span
  rcases s with ⟨target, value, span⟩
  unfold inferStmtAt
  rw [hbody]
  cases hk : n.kind with
  | print id =>
    rw [hk] at htarget
    cases htarget
    simp [Stmt.infer]
  | define name id =>
    rw [hk] at htarget
    cases htarget
    cases hspan
    simp only [Stmt.infer, ExceptT.run_liftM, Inferred.findings_map, liftM_bind]
    congr 1
    funext ty
    cases scope.define ⟨a.name name, ty⟩ <;> simp

theorem inferStmtsAt_eq {a : Arena} {nodes : List StmtNode} {stmts : List Stmt}
    (h : List.Forall₂ (StmtNode.Unfolds a) nodes stmts) :
    ∀ index scope, a.inferStmtsAt a.nodes.size index scope nodes =
      liftM (inferStmts index scope stmts) := by
  induction h with
  | nil =>
    intro index scope
    simp [inferStmtsAt, inferStmts]
  | cons hstmt _ ih =>
    intro index scope
    simp [inferStmtsAt, inferStmts, inferStmtAt_eq hstmt hstmt.value.lt_size, ih]

end Arena

/--
The walk through a sound program reads no position outside the node table, goes no deeper than the
table is long, and finds what inference finds.
-/
theorem SoundProgram.inferAll_eq (p : SoundProgram) :
    (p.program.inferAll p.program.arena.nodes.size).run =
      Except.ok <$> inferStmts 0 .empty p.stmts := by
  rw [Program.inferAll, Arena.inferStmtsAt_eq p.unfolds_stmts, ExceptT.run_liftM]

/-- In a program that is not sound the walk may leave the table. -/
example : ((Program.mk ⟨#[⟨.unary .neg ⟨1⟩, .nowhere⟩], #[], #[]⟩
    #[⟨.print ⟨0⟩, .nowhere⟩]).inferAll 2).run.value = .error (.outside ⟨1⟩) :=
  rfl

/-- A node below itself is gone round until the allowance is used up. -/
example : ((Program.mk ⟨#[⟨.unary .neg ⟨0⟩, .nowhere⟩], #[], #[]⟩
    #[⟨.print ⟨0⟩, .nowhere⟩]).inferAll 9).run.value = .error .endless :=
  rfl

end SeqCalc
