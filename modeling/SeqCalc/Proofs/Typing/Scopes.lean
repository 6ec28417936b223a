import SeqCalc.Proofs.Typing.Walk

/-!
# What inference reads from a scope

Inference asks a scope for the names that occur outside function literals and for nothing else.  So
an expression is inferred alike in scopes that agree on these names, and statements are inferred
alike in scopes that agree on all names, whatever the order of their variables.

Main results:

- `Expr.infer_congr`: an expression in two scopes.
- `inferStmts_congr`: statements in two scopes.
- `Expr.isSome_of_complaints`: without complaints all names outside function literals are found.
-/

namespace SeqCalc

/-! ## Expressions -/

namespace Expr

/-- An expression is inferred alike in scopes that agree on its names. -/
theorem infer_congr (e : Expr) {s t : Scope} (b : Bool)
    (h : ∀ name ∈ e.names, s.lookup? name = t.lookup? name) : e.infer ⟨s, b⟩ = e.infer ⟨t, b⟩ := by
  induction e with
  | int | float | lambda => rfl
  | ident site name =>
    have hname := h name (List.mem_singleton.2 rfl)
    simp only [Expr.infer, Env.resolve, hname]
  | unary site op operand ih => simp only [Expr.infer, ih h]
  | binary site op left right ihl ihr =>
    rcases List.forall_mem_append.1 h with ⟨hl, hr⟩
    simp only [Expr.infer, ihl hl, ihr hr]
  | range site first last ihf ihl =>
    rcases List.forall_mem_append.1 h with ⟨hf, hl⟩
    simp only [Expr.infer, ihf hf, ihl hl]
  | map site seq function ihs _ => simp only [Expr.infer, ihs h]
  | reduce site seq neutral function ihs ihn _ =>
    rcases List.forall_mem_append.1 h with ⟨hs, hn⟩
    simp only [Expr.infer, ihs hs, ihn hn]

/-- Without complaints all names outside function literals are found. -/
theorem isSome_of_complaints (e : Expr) {env : Env} (h : (e.infer env).findings.complaints = []) :
    ∀ name ∈ e.names, (env.scope.lookup? name).isSome := by
  induction e with
  | int | float | lambda => simp [names]
  | ident site name =>
    intro other hother
    rw [List.mem_singleton.1 hother]
    cases hname : env.scope.lookup? name with
    | some v => rfl
    | none => simp [Expr.infer, Env.resolve, hname] at h
  | unary site op operand ih =>
    simp only [infer_unary, Inferred.findings_bind, Findings.complaints_append,
      List.append_eq_nil_iff] at h
    exact ih h.1
  | binary site op left right ihl ihr =>
    simp only [Expr.infer, Inferred.findings_bind, Findings.complaints_append,
      List.append_eq_nil_iff] at h
    exact List.forall_mem_append.2 ⟨ihl h.1, ihr h.2.1⟩
  | range site first last ihf ihl =>
    simp only [Expr.infer, Inferred.findings_bind, Findings.complaints_append,
      List.append_eq_nil_iff] at h
    exact List.forall_mem_append.2 ⟨ihf h.1, ihl h.2.2.1⟩
  | map site seq function ihs _ =>
    simp only [Expr.infer, Inferred.findings_bind, Findings.complaints_append,
      List.append_eq_nil_iff] at h
    exact ihs h.1
  | reduce site seq neutral function ihs ihn _ =>
    simp only [infer_reduce, Inferred.findings_bind, Findings.complaints_append,
      List.append_eq_nil_iff] at h
    exact List.forall_mem_append.2 ⟨ihs h.1, ihn h.2.1⟩

end Expr

/-! ## Statements -/

/-- Scopes that know the same variables, in whatever order. -/
def Scope.Agrees (s t : Scope) : Prop :=
  ∀ name, s.lookup? name = t.lookup? name

/-- A definition is possible in both of two scopes that agree, or it clashes in both. -/
theorem Scope.Agrees.define {s t : Scope} (h : s.Agrees t) (v : Variable) :
    (∃ old, s.define v = .error old ∧ t.define v = .error old) ∨
      ∃ s' t', s.define v = .ok s' ∧ t.define v = .ok t' ∧ s'.Agrees t' := by
  cases hlookup : s.lookup? v.name with
  | some old =>
    left
    exact ⟨old, by rw [Scope.define, hlookup], by rw [Scope.define, ← h, hlookup]⟩
  | none =>
    right
    have hs : s.define v = .ok ⟨s.vars ++ [v]⟩ := by rw [Scope.define, hlookup]
    have ht : t.define v = .ok ⟨t.vars ++ [v]⟩ := by rw [Scope.define, ← h, hlookup]
    refine ⟨_, _, hs, ht, fun name => ?_⟩
    rw [lookup?_define hs, lookup?_define ht, h name]

/-- A statement finds and writes the same in scopes that agree, and leaves scopes that agree. -/
theorem Stmt.infer_congr (stmt : Stmt) (index : Nat) {s t : Scope} (h : s.Agrees t) :
    (stmt.infer index s).findings = (stmt.infer index t).findings ∧
      (stmt.infer index s).value.1 = (stmt.infer index t).value.1 ∧
      (stmt.infer index s).value.2.Agrees (stmt.infer index t).value.2 := by
  rcases stmt with ⟨target, value, span⟩
  have hvalue := value.infer_congr false fun name _ => h name
  cases target with
  | none =>
    simp only [Stmt.infer, hvalue]
    exact ⟨rfl, rfl, h⟩
  | some name =>
    simp only [Stmt.infer, hvalue, Inferred.findings_bind, Inferred.value_bind]
    rcases h.define ⟨name, (value.infer ⟨t, false⟩).value⟩ with
      ⟨old, hs, ht⟩ | ⟨s', t', hs, ht, hagrees⟩
    · rw [hs, ht]
      exact ⟨rfl, rfl, h⟩
    · rw [hs, ht]
      exact ⟨rfl, rfl, hagrees⟩

theorem inferStmts_cons (index : Nat) (scope : Scope) (s : Stmt) (rest : List Stmt) :
    inferStmts index scope (s :: rest) =
      ⟨(s.infer index scope).value.1 ::
          (inferStmts (index + 1) (s.infer index scope).value.2 rest).value,
        (s.infer index scope).findings ++
          (inferStmts (index + 1) (s.infer index scope).value.2 rest).findings⟩ := by
  change Inferred.mk _ (_ ++ (_ ++ Findings.empty)) = _
  rw [Findings.append_empty]
  rfl

/-- Statements are inferred alike in scopes that agree. -/
theorem inferStmts_congr (stmts : List Stmt) (index : Nat) {s t : Scope} (h : s.Agrees t) :
    inferStmts index s stmts = inferStmts index t stmts := by
  induction stmts generalizing index s t with
  | nil => rfl
  | cons stmt rest ih =>
    rcases stmt.infer_congr index h with ⟨hfindings, hsignature, hscope⟩
    rw [inferStmts_cons, inferStmts_cons, hfindings, hsignature, ih (index + 1) hscope]

end SeqCalc
