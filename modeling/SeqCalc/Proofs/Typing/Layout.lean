import SeqCalc.Proofs.Typing.Visits

/-!
# Inference and positions

The same trees can be laid out in many node tables: in another order, among other nodes, with a tree
that occurs twice shared or copied.  A tree is anonymous if it does not say which nodes it was grown
from, and two programs have the same trees if their statements are the same once they are anonymous.
Inference gives nodes their types by position, but it looks no position up, so all that it says
besides its visits is a matter of the anonymous trees.

Main results:

- `Expr.unvisited_infer_anonymous`: the type, the complaints and the reads of an anonymous tree.
- `SoundProgram.SameTrees.infer`: programs with the same trees have the same signatures and
  complaints.
-/

namespace SeqCalc

/-! ## Anonymous trees -/

/-- The place of a tree node without the node that it was grown from. -/
def Site.anonymous (site : Site) : Site :=
  { site with id := ⟨0⟩ }

namespace Expr

/-- The tree with its spans, but without the nodes that it was grown from. -/
def anonymous : Expr → Expr
  | .int site value => .int site.anonymous value
  | .float site bits => .float site.anonymous bits
  | .ident site name => .ident site.anonymous name
  | .binary site op left right => .binary site.anonymous op left.anonymous right.anonymous
  | .unary site op operand => .unary site.anonymous op operand.anonymous
  | .range site first last => .range site.anonymous first.anonymous last.anonymous
  | .map site seq function => .map site.anonymous seq.anonymous function.anonymous
  | .reduce site seq neutral function =>
    .reduce site.anonymous seq.anonymous neutral.anonymous function.anonymous
  | .lambda site params body => .lambda site.anonymous params body.anonymous

@[simp]
theorem span_anonymous (e : Expr) : e.anonymous.span = e.span := by
  cases e <;> rfl

end Expr

/-- The statement with an anonymous tree. -/
def Stmt.anonymous (s : Stmt) : Stmt :=
  { s with value := s.value.anonymous }

namespace SoundProgram

/-- Programs whose statements are the same, up to the nodes that their trees were grown from. -/
def SameTrees (p q : SoundProgram) : Prop :=
  p.stmts.map Stmt.anonymous = q.stmts.map Stmt.anonymous

instance (p q : SoundProgram) : Decidable (p.SameTrees q) :=
  inferInstanceAs (Decidable (p.stmts.map Stmt.anonymous = q.stmts.map Stmt.anonymous))

end SoundProgram

/-! ## Inference without visits -/

namespace Inferred

/-- Forget the visits. -/
def unvisited {α : Type} (x : Inferred α) : Inferred α :=
  ⟨x.value, { x.findings with visits := [] }⟩

variable {α β : Type}

@[simp]
theorem unvisited_bind (x : Inferred α) (f : α → Inferred β) :
    (x >>= f).unvisited = x.unvisited >>= fun a => (f a).unvisited :=
  rfl

@[simp]
theorem reads_unvisited (x : Inferred α) : x.unvisited.findings.reads = x.findings.reads :=
  rfl

end Inferred

namespace Expr

/-- Without visits, an anonymous tree is inferred as the tree is. -/
theorem unvisited_infer_anonymous (e : Expr) :
    (∀ env, (e.anonymous.infer env).unvisited = (e.infer env).unvisited) ∧
      ∀ c given, (e.anonymous.inferFunction c given).unvisited =
        (e.inferFunction c given).unvisited := by
  induction e with
  | int | float => exact ⟨fun _ => rfl, fun _ _ => rfl⟩
  | ident site name => exact ⟨fun _ => rfl, fun _ _ => rfl⟩
  | unary site op operand ih =>
    refine ⟨fun env => ?_, fun _ _ => rfl⟩
    simp only [anonymous, infer_unary, Inferred.unvisited_bind, ih.1 env]
    rfl
  | binary site op left right ihl ihr =>
    refine ⟨fun env => ?_, fun _ _ => rfl⟩
    simp only [anonymous, Expr.infer, Inferred.unvisited_bind, ihl.1 env, ihr.1 env]
    rfl
  | range site first last ihf ihl =>
    refine ⟨fun env => ?_, fun _ _ => rfl⟩
    simp only [anonymous, Expr.infer, Inferred.unvisited_bind, ihf.1 env, ihl.1 env,
      span_anonymous]
    rfl
  | map site seq function ihs ihf =>
    refine ⟨fun env => ?_, fun _ _ => rfl⟩
    simp only [anonymous, Expr.infer, Inferred.unvisited_bind, ihs.1 env, ihf.2, span_anonymous]
    rfl
  | reduce site seq neutral function ihs ihn ihf =>
    refine ⟨fun env => ?_, fun _ _ => rfl⟩
    simp only [anonymous, infer_reduce, Inferred.unvisited_bind, ihs.1 env, ihn.1 env, ihf.2,
      span_anonymous]
    rfl
  | lambda site params body ih =>
    refine ⟨fun _ => rfl, fun c given => ?_⟩
    simp only [anonymous, inferFunction_lambda, Inferred.unvisited_bind, ih.1, span_anonymous]
    rfl

end Expr

theorem Stmt.unvisited_infer_anonymous (s : Stmt) (index : Nat) (scope : Scope) :
    (s.anonymous.infer index scope).unvisited = (s.infer index scope).unvisited := by
  have hvalue := s.value.unvisited_infer_anonymous.1 ⟨scope, false⟩
  have hreads := congrArg (fun x => x.findings.reads) hvalue
  simp only [Inferred.reads_unvisited] at hreads
  rcases s with ⟨target, value, span⟩
  cases target with
  | none =>
    simp only [Stmt.anonymous, Stmt.infer, Inferred.unvisited_bind, hvalue, hreads]
  | some name =>
    simp only [Stmt.anonymous, Stmt.infer, Inferred.unvisited_bind, hvalue, hreads]

/-- Statements that are the same without positions are inferred alike. -/
theorem Stmt.unvisited_infer_congr {s t : Stmt} (h : s.anonymous = t.anonymous) (index : Nat)
    (scope : Scope) : (s.infer index scope).unvisited = (t.infer index scope).unvisited := by
  rw [← s.unvisited_infer_anonymous, h, t.unvisited_infer_anonymous]

theorem unvisited_inferStmts_congr {ss ts : List Stmt}
    (h : ss.map Stmt.anonymous = ts.map Stmt.anonymous) :
    ∀ index scope, (inferStmts index scope ss).unvisited =
      (inferStmts index scope ts).unvisited := by
  induction ss generalizing ts with
  | nil =>
    intro index scope
    rw [List.map_nil, eq_comm, List.map_eq_nil_iff] at h
    rw [h]
  | cons s ss ih =>
    intro index scope
    rw [List.map_cons, eq_comm, List.map_eq_cons_iff] at h
    rcases h with ⟨t, rest, rfl, ht, hrest⟩
    simp only [inferStmts, Inferred.unvisited_bind, Stmt.unvisited_infer_congr ht.symm,
      ih hrest.symm]

namespace SoundProgram

/-- Programs with the same trees have the same signatures and complaints. -/
theorem SameTrees.infer {p q : SoundProgram} (h : p.SameTrees q) :
    p.infer.signatures = q.infer.signatures ∧ p.infer.complaints = q.infer.complaints := by
  have hsame := unvisited_inferStmts_congr h 0 .empty
  exact ⟨congrArg (fun x => x.value) hsame, congrArg (fun x => x.findings.complaints) hsame⟩

end SoundProgram
end SeqCalc
