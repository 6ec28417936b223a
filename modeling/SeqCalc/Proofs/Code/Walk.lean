import SeqCalc.Code.Lowering
import SeqCalc.Proofs.Typing.Walk

/-!
# Lowering by position

Lowering goes through the node table as inference does, and with the same checks on every access it
comes to the code of the tree that the table unfolds to.  That holds for every table of types, every
signature and every backend, whether or not the statement can be lowered.

Main results:

- `Arena.lowerAt_eq`: the walk from a node lowers its tree.
- `SoundProgram.lowerAt_eq`: the walk from the value of each statement lowers the statement.
-/

namespace SeqCalc

/-- Lowering that may stray. -/
abbrev LoweringWalk :=
  ExceptT Stray (Except BackendError)

namespace Arena

/-- A function with the given profile around the body that a walk builds. -/
def wrapWalk (b : Backend) (p : Profile) (make : LoweringWalk Code) : LoweringWalk Code := do
  b.opens p
  let body ← make
  b.closes p body
  return body

mutual

/--
The code of the node at a position inside a function, where the walk may go as many levels down as
the allowance says.
-/
def lowerAt (b : Backend) (types : TypeTable) (a : Arena) (f : Scaffold) (id : NodeId) :
    Nat → LoweringWalk Code
  | 0 => throw .endless
  | allowance + 1 => do
    match (← a.read id).kind with
    | .int value => b.build f.profile (.int value)
    | .float bits => b.build f.profile (.float ⟨bits⟩)
    | .ident name =>
      match slot? f.names (a.name name) with
      | some slot => b.build f.profile (.param slot)
      | none => (Except.error (.unresolved (a.name name)) : Except BackendError Code)
    | .unary op operand => do
      let code ← lowerAt b types a f operand allowance
      match op with
      | .plus => return code
      | .neg => do
        let kind ← types.scalarOf id
        b.build f.profile (.neg kind code)
    | .binary op left right => do
      let kind ← types.scalarOf id
      let l ← lowerAt b types a f left allowance
      let l ← f.coerce b types left kind l
      let r ← lowerAt b types a f right allowance
      let r ← f.coerce b types right kind r
      b.build f.profile (.arith kind op l r)
    | .range first last => do
      let s ← lowerAt b types a f first allowance
      let z ← lowerAt b types a f last allowance
      b.build f.profile (.range true s z)
    | .map seq function => do
      let source ← types.elementOf seq
      let target := types.get function
      let s ← lowerAt b types a f seq allowance
      let profile : Profile := ⟨target, [source]⟩
      let body ← lowerFunctionAt b types a profile function allowance
      b.build f.profile (.map s profile body source target)
    | .reduce seq neutral function => do
      let acc ← types.scalarOf id
      let element ← types.scalarElementOf seq
      let s ← lowerAt b types a f seq allowance
      let n ← lowerAt b types a f neutral allowance
      let n ← f.coerce b types neutral acc n
      let profile : Profile := ⟨.scalar acc, [.scalar acc, .scalar acc]⟩
      let body ← lowerFunctionAt b types a profile function allowance
      b.build f.profile (.reduce s n profile body element acc)
    | .lambda _ _ => (Except.error (.malformed .strayLambda) : Except BackendError Code)

/-- The body of the function literal at a position. -/
def lowerFunctionAt (b : Backend) (types : TypeTable) (a : Arena) (profile : Profile)
    (id : NodeId) : Nat → LoweringWalk Code
  | 0 => throw .endless
  | allowance + 1 => do
    match (← a.read id).kind with
    | .lambda range body =>
      let params := (a.paramNames range).map a.name
      if params.length = profile.params.length then
        wrapWalk b profile (lowerAt b types a ⟨profile, params⟩ body allowance)
      else
        (Except.error (.malformed .lambdaArity) : Except BackendError Code)
    | _ => (Except.error (.malformed .lambdaExpected) : Except BackendError Code)

end

/-- The function of the statement with the given signature whose value is at a position. -/
def lowerStmtAt (b : Backend) (types : TypeTable) (a : Arena) (s : Signature) (value : NodeId)
    (allowance : Nat) : LoweringWalk Function := do
  let body ← wrapWalk b s.profile do
    let body ← lowerAt b types a ⟨s.profile, s.inputs.map Variable.name⟩ value allowance
    b.address body
    return body
  return ⟨s.profile, body⟩

/-! ## Walks and trees -/

theorem wrapWalk_liftM (b : Backend) (p : Profile) (make : Except BackendError Code) :
    wrapWalk b p (liftM make) = liftM (b.wrap p make) := by
  simp [wrapWalk, Backend.wrap]

/-- The walk from a node comes to what a tree is lowered to, here and as a function literal. -/
def Lowers (b : Backend) (types : TypeTable) (a : Arena) (id : NodeId) (e : Expr) : Prop :=
  (∀ f allowance, id.toNat < allowance →
      lowerAt b types a f id allowance = liftM (e.lower b types f)) ∧
    ∀ profile allowance, id.toNat < allowance →
      lowerFunctionAt b types a profile id allowance = liftM (e.lowerFunction b types profile)

variable {b : Backend} {types : TypeTable} {a : Arena} {id : NodeId} {e : Expr}

/-- What is not a function literal is refused as one; the walk has to find it as an expression. -/
theorem lowers_of_operation {kind : NodeKind} {span : Span}
    (hnode : a.nodes[id.toNat]? = some ⟨kind, span⟩)
    (hkind : ∀ params body, kind ≠ .lambda params body)
    (hfunction : ∀ profile, e.lowerFunction b types profile = .error (.malformed .lambdaExpected))
    (h : ∀ f allowance, id.toNat ≤ allowance →
      lowerAt b types a f id (allowance + 1) = liftM (e.lower b types f)) :
    Lowers b types a id e := by
  constructor
  · intro f allowance hlt
    obtain ⟨n, rfl⟩ : ∃ n, allowance = n + 1 := ⟨allowance - 1, by omega⟩
    exact h f n (by omega)
  · intro profile allowance hlt
    obtain ⟨n, rfl⟩ : ∃ n, allowance = n + 1 := ⟨allowance - 1, by omega⟩
    rw [lowerFunctionAt, read_eq hnode, hfunction]
    cases kind with
    | lambda params body => exact absurd rfl (hkind params body)
    | int | float | ident | unary | binary | range | map | reduce => simp

/-- The walk from a node of a table lowers the tree that the table unfolds to there. -/
theorem lowerAt_eq (h : a.Unfolds id e) : Lowers b types a id e := by
  induction h with
  | int hnode =>
    refine lowers_of_operation hnode (by simp) (fun _ => rfl) ?_
    intro f allowance _
    simp [lowerAt, read_eq hnode, Expr.lower]
  | float hnode =>
    refine lowers_of_operation hnode (by simp) (fun _ => rfl) ?_
    intro f allowance _
    simp [lowerAt, read_eq hnode, Expr.lower]
  | @ident id span name hnode =>
    refine lowers_of_operation hnode (by simp) (fun _ => rfl) ?_
    intro f allowance _
    simp only [lowerAt, read_eq hnode, Expr.lower, pure_bind]
    cases slot? f.names (a.name name) <;> rfl
  | @unary id operand span op e hnode hlt _ ih =>
    refine lowers_of_operation hnode (by simp) (fun _ => rfl) ?_
    intro f allowance hle
    cases op <;> simp [lowerAt, read_eq hnode, Expr.lower, ih.1 f allowance (by omega)]
  | binary hnode hltl hltr hl hr ihl ihr =>
    refine lowers_of_operation hnode (by simp) (fun _ => rfl) ?_
    intro f allowance hle
    simp [lowerAt, read_eq hnode, Expr.lower, ihl.1 f allowance (by omega),
      ihr.1 f allowance (by omega), hl.id_eq, hr.id_eq]
  | range hnode hltf hltl _ _ ihf ihl =>
    refine lowers_of_operation hnode (by simp) (fun _ => rfl) ?_
    intro f allowance hle
    simp [lowerAt, read_eq hnode, Expr.lower, ihf.1 f allowance (by omega),
      ihl.1 f allowance (by omega)]
  | map hnode hlts hltf hseq hfunction ihs ihf =>
    refine lowers_of_operation hnode (by simp) (fun _ => rfl) ?_
    intro f allowance hle
    simp [lowerAt, read_eq hnode, Expr.lower, ihs.1 f allowance (by omega),
      fun profile => ihf.2 profile allowance (by omega), hseq.id_eq, hfunction.id_eq]
  | reduce hnode hlts hltn hltf hseq hneutral _ ihs ihn ihf =>
    refine lowers_of_operation hnode (by simp) (fun _ => rfl) ?_
    intro f allowance hle
    simp [lowerAt, read_eq hnode, Expr.lower, ihs.1 f allowance (by omega),
      ihn.1 f allowance (by omega), fun profile => ihf.2 profile allowance (by omega),
      hseq.id_eq, hneutral.id_eq]
  | lambda hnode hlt _ ih =>
    constructor
    · rintro f (_ | allowance) hle
      · omega
      · simp [lowerAt, read_eq hnode, Expr.lower]
    · rintro profile (_ | allowance) hle
      · omega
      · simp only [lowerFunctionAt, read_eq hnode, Expr.lowerFunction, pure_bind]
        split
        · rw [ih.1 _ allowance (by omega), wrapWalk_liftM]
        · rfl

/-- The walk from the value of a statement lowers the statement over trees. -/
theorem lowerStmtAt_eq (b : Backend) (types : TypeTable) (s : Signature) (h : a.Unfolds id e) :
    lowerStmtAt b types a s id a.nodes.size = liftM (s.lower b types e) := by
  simp [lowerStmtAt, Signature.lower, (lowerAt_eq h).1 _ _ h.lt_size, wrapWalk, Backend.wrap,
    Backend.addressed]

end Arena

/--
The walks from the statements of a sound program read no position outside the node table, go no
deeper than the table is long, and find what lowering finds.
-/
theorem SoundProgram.lowerAt_eq (p : SoundProgram) (b : Backend) (types : TypeTable)
    (s : Signature) :
    List.Forall₂ (fun (n : StmtNode) (stmt : Stmt) =>
        (Arena.lowerStmtAt b types p.program.arena s n.kind.value
          p.program.arena.nodes.size).run = Except.ok <$> s.lower b types stmt.value)
      p.program.stmts.toList p.stmts := by
  apply p.unfolds_stmts.imp
  intro n stmt h
  rw [Arena.lowerStmtAt_eq b types s h.value, ExceptT.run_liftM]

end SeqCalc
