import SeqCalc.Proofs.Code.Walk
import SeqCalc.Proofs.Execution.Preparation
import SeqCalc.Proofs.Program.Validity

/-!
# What acceptance guarantees

An outcome is accepted if it is a well-formed program, and nothing else about the program is looked
at.  That is enough for everything that comes after: inference and lowering can go through the node
table without checks.

Main results:

- `ParseOutcome.accept_eq_ok_iff`, `ParseOutcome.accept_eq_error_iff`: what is accepted, and what is
  said about the rest.
- `ParseOutcome.accept_exact_and_safe`: validation is exact, and it makes the walks of inference and
  lowering safe.
-/

namespace SeqCalc

theorem Program.accept_eq_ok_iff {p : Program} {sp : SoundProgram} :
    p.accept = .ok sp ↔ p = sp.program := by
  rcases sp with ⟨program, sound⟩
  unfold accept
  constructor
  · intro h
    split at h
    · cases h
      rfl
    · contradiction
  · rintro rfl
    rw [dif_pos sound]

theorem Program.accept_eq_error_iff {p : Program} {ds : List Diagnostic} :
    p.accept = .error ds ↔
      p.validate ≠ [] ∧ ds = p.syntaxErrors.map SyntaxError.diagnostic := by
  unfold accept
  split
  · rename_i h
    simp [h]
  · rename_i h
    simp only [Except.error.injEq, ne_eq, h, not_false_eq_true, true_and]
    exact eq_comm

namespace ParseOutcome

/-- The errors that an outcome is rejected for: those it carries, or the flaws of its program. -/
def errors : ParseOutcome → List SyntaxError
  | .program p => p.syntaxErrors
  | .syntaxErrors errors => errors

/-- Outcomes that carry syntax errors, and programs that are not well formed. -/
def Rejected (o : ParseOutcome) : Prop :=
  (∃ errors, o = .syntaxErrors errors) ∨ ∃ p, o = .program p ∧ ¬ p.WellFormed

theorem accept_eq_ok_iff {o : ParseOutcome} {sp : SoundProgram} :
    o.accept = .ok sp ↔ o = .program sp.program := by
  cases o with
  | program p => rw [accept, Program.accept_eq_ok_iff, ParseOutcome.program.injEq]
  | syntaxErrors errors => simp [accept]

theorem accept_eq_error_iff {o : ParseOutcome} {ds : List Diagnostic} :
    o.accept = .error ds ↔ o.Rejected ∧ ds = o.errors.map SyntaxError.diagnostic := by
  cases o with
  | program p =>
    have hrejected : (ParseOutcome.program p).Rejected ↔ p.validate ≠ [] := by
      simp [Rejected, p.validate_eq_nil_iff]
    rw [accept, Program.accept_eq_error_iff, hrejected]
    rfl
  | syntaxErrors errors =>
    have hrejected : (ParseOutcome.syntaxErrors errors).Rejected := .inl ⟨errors, rfl⟩
    simp only [accept, Except.error.injEq, hrejected, true_and]
    exact eq_comm

/--
Validation is exact.  Programs without flaws are the well-formed ones, and otherwise there is one
flaw for each reference that leads nowhere, in order.  Exactly the outcomes with syntax errors or
flaws are rejected, with one diagnostic for each error.  From an accepted program, inference and the
lowering of every statement go by position through the node table without leaving it, to a depth
that its length bounds, and find what they find for trees.
-/
theorem accept_exact_and_safe (o : ParseOutcome) :
    (∀ p : Program,
      (p.validate = [] ↔ p.WellFormed) ∧
      p.validate = (p.spannedReferences.filter fun r => ¬ r.2.Resolves p.arena).map
        fun r => (r.1, r.2.flaw)) ∧
    (∀ sp, o.accept = .ok sp ↔ o = .program sp.program) ∧
    (∀ ds, o.accept = .error ds ↔ o.Rejected ∧
      ds = o.errors.map fun e => ⟨.badSyntax, e.message, [⟨e.span, "", true⟩], [], []⟩) ∧
    ErrorCode.badSyntax.text = "E1001" ∧
    ∀ sp, o.accept = .ok sp →
      (sp.program.inferAll sp.program.arena.nodes.size).run =
        Except.ok <$> inferStmts 0 .empty sp.stmts ∧
      ∀ b types s, List.Forall₂ (fun (n : StmtNode) (stmt : Stmt) =>
          (Arena.lowerStmtAt b types sp.program.arena s n.kind.value
            sp.program.arena.nodes.size).run = Except.ok <$> s.lower b types stmt.value)
        sp.program.stmts.toList sp.stmts := by
  refine ⟨?_, ?_, ?_, ?_, ?_⟩
  · intro p
    exact ⟨p.validate_eq_nil_iff, p.validate_eq⟩
  · intro sp
    exact accept_eq_ok_iff
  · intro ds
    exact accept_eq_error_iff
  · rfl
  · intro sp _
    exact ⟨sp.inferAll_eq, sp.lowerAt_eq⟩

theorem accept_exact_and_safe_sumOfSquares :
    (ParseOutcome.program SoundProgram.sumOfSquares.program).accept = .ok .sumOfSquares ∧
      (SoundProgram.sumOfSquares.program.inferAll 15).run =
        Except.ok <$> inferStmts 0 .empty SoundProgram.sumOfSquares.stmts := by
  have hexact := accept_exact_and_safe (.program SoundProgram.sumOfSquares.program)
  have haccept := (hexact.2.1 .sumOfSquares).2 rfl
  exact ⟨haccept, (hexact.2.2.2.2 .sumOfSquares haccept).1⟩

end ParseOutcome
end SeqCalc
