import SeqCalc.Proofs.Program.Unfolding
import SeqCalc.Proofs.Typing.Visits

/-!
# How deep sequences are nested

Only `map` nests sequences: its result is one level deeper than the body of its function literal,
where the parameter is one level less deep than the sequence that is mapped.  So a type is no deeper
than the tree of its expression is high, or than the deepest variable in scope.  Statements hand on
their types through variables, which adds nothing to that.  Since children stand below their parents
in the node table, no tree is higher than the positions of the table, and depths are numbers of half
a word.

Main results:

- `Expr.depth_le`: the visits of an expression, for a bound on its height and its scope.
- `SoundProgram.depth_visits_lt`: depths of the visits of a program.
-/

namespace SeqCalc

/-! ## Depths -/

namespace Ty

/-- How many times a type is nested. -/
def depth : Ty → Nat
  | scalar _ => 0
  | seq _ depth => depth

@[simp]
theorem depth_unknown : Ty.unknown.depth = 0 :=
  rfl

@[simp]
theorem depth_sequenceOf (t : Ty) : t.sequenceOf.depth = t.depth + 1 := by
  cases t <;> rfl

theorem depth_of_element? {t u : Ty} (h : t.element? = some u) : u.depth = t.depth - 1 := by
  cases t with
  | scalar s => contradiction
  | seq element depth =>
    simp only [element?, Option.some.injEq] at h
    subst h
    split
    · simp only [Ty.depth]
      omega
    · rfl

end Ty

theorem depth_elementOf_le (span : Span) (t : Ty) :
    (elementOf span t).value.depth ≤ t.depth - 1 := by
  unfold elementOf
  cases h : t.element? with
  | some u => exact Nat.le_of_eq (Ty.depth_of_element? h)
  | none => cases t.isUnknown <;> exact Nat.zero_le _

@[simp]
theorem depth_combine (site : Site) (op : BinaryOp) (t u : Ty) :
    (combine site op t u).value.depth = 0 := by
  unfold combine
  split
  · rfl
  · split <;> rfl

@[simp]
theorem depth_accumulator (s₁ s₂ : Span) (t u : Ty) :
    (accumulator s₁ s₂ t u).value.depth = 0 := by
  unfold accumulator
  split
  · rfl
  · cases t.isSequence <;> cases u.isSequence <;> rfl

/-- No variable of a scope is deeper. -/
def Scope.DepthLe (s : Scope) (bound : Nat) : Prop :=
  ∀ v ∈ s.vars, v.ty.depth ≤ bound

namespace Scope

variable {s s' : Scope} {bound : Nat}

theorem depthLe_empty : Scope.empty.DepthLe bound := by
  intro v hv
  contradiction

theorem DepthLe.lookup? (h : s.DepthLe bound) {name : String} {v : Variable}
    (hv : s.lookup? name = some v) : v.ty.depth ≤ bound :=
  h v (List.mem_of_find?_eq_some hv)

theorem DepthLe.define (h : s.DepthLe bound) {v : Variable} (hv : v.ty.depth ≤ bound)
    (hs : s.define v = .ok s') : s'.DepthLe bound := by
  rw [DepthLe, (define_eq_ok_iff.1 hs).2]
  exact List.forall_mem_append.2 ⟨h, List.forall_mem_singleton.2 hv⟩

theorem DepthLe.bindParams (h : s.DepthLe bound) {given : List Ty}
    (hgiven : ∀ t ∈ given, t.depth ≤ bound) (span : Span) (names : List String) :
    (bindParams span s names given).value.DepthLe bound := by
  induction names generalizing s given with
  | nil => exact h
  | cons name names ih =>
    have hparam : (given.headD .unknown).depth ≤ bound := by
      cases given with
      | nil => exact Nat.zero_le _
      | cons t rest => exact hgiven t List.mem_cons_self
    have hgiven' : ∀ t ∈ given.tail, t.depth ≤ bound :=
      fun t ht => hgiven t (List.mem_of_mem_tail ht)
    unfold SeqCalc.bindParams
    cases hdefine : s.define ⟨name, given.headD .unknown⟩ with
    | ok wider => exact ih (h.define hparam hdefine) hgiven'
    | error v => exact ih h hgiven'

end Scope

/-! ## Expressions -/

namespace Expr

/-- The longest way from the root of a tree to a leaf. -/
def height : Expr → Nat
  | .int _ _ | .float _ _ | .ident _ _ => 0
  | .unary _ _ operand => operand.height + 1
  | .binary _ _ left right => max left.height right.height + 1
  | .range _ first last => max first.height last.height + 1
  | .map _ seq function => max seq.height function.height + 1
  | .reduce _ seq neutral function => max (max seq.height neutral.height) function.height + 1
  | .lambda _ _ body => body.height + 1

/-- The tree of a node is no higher than the position of the node. -/
theorem height_le {a : Arena} {id : NodeId} {e : Expr} (h : a.Unfolds id e) :
    e.height ≤ id.toNat := by
  induction h with
  | int _ | float _ | ident _ => exact Nat.zero_le _
  | unary _ _ _ ih =>
    rw [height]
    omega
  | binary _ _ _ _ _ ihl ihr =>
    rw [height]
    omega
  | range _ _ _ _ _ ihf ihl =>
    rw [height]
    omega
  | map _ _ _ _ _ ihs ihf =>
    rw [height]
    omega
  | reduce _ _ _ _ _ _ _ ihs ihn ihf =>
    rw [height]
    omega
  | lambda _ _ _ ih =>
    rw [height]
    omega

/-- A bound on the depths that the visits of an expression give, here and as a function literal. -/
def DepthLe (e : Expr) : Prop :=
  (∀ env bound, e.height ≤ bound → env.scope.DepthLe bound →
      ∀ v ∈ (e.infer env).findings.visits, v.2.depth ≤ bound) ∧
    ∀ c given bound, e.height ≤ bound → (∀ t ∈ given, t.depth ≤ bound) →
      (∀ v ∈ (e.inferFunction c given).findings.visits, v.2.depth ≤ bound) ∧
        (e.inferFunction c given).value.1.depth ≤ bound

theorem DepthLe.value {e : Expr} (h : e.DepthLe) {env : Env} {bound : Nat}
    (hheight : e.height ≤ bound) (hscope : env.scope.DepthLe bound) :
    (e.infer env).value.depth ≤ bound :=
  h.1 env bound hheight hscope _ (e.mem_visits_infer env)

theorem depthLe_of_operation {e : Expr}
    (hfunction : ∀ c given, e.inferFunction c given = do
      Inferred.complain e.span (.lambdaExpected c)
      return (.unknown, e.span))
    (h : ∀ env bound, e.height ≤ bound → env.scope.DepthLe bound →
      ∀ v ∈ (e.infer env).findings.visits, v.2.depth ≤ bound) : e.DepthLe := by
  refine ⟨h, fun c given bound _ _ => ?_⟩
  rw [hfunction]
  exact ⟨by simp, Nat.zero_le _⟩

/-- The last visit is that of the root. -/
theorem depth_le_of_append {visits : List (NodeId × Ty)} {id : NodeId} {t : Ty} {bound : Nat}
    (h : ∀ v ∈ visits, v.2.depth ≤ bound) (ht : t.depth ≤ bound) :
    ∀ v ∈ visits ++ [(id, t)], v.2.depth ≤ bound :=
  List.forall_mem_append.2 ⟨h, List.forall_mem_singleton.2 ht⟩

theorem depth_le (e : Expr) : e.DepthLe := by
  induction e with
  | int | float =>
    refine depthLe_of_operation (fun _ _ => rfl) fun env bound _ _ => ?_
    simp [Expr.infer, Ty.int, Ty.float, Ty.depth]
  | ident site name =>
    refine depthLe_of_operation (fun _ _ => rfl) fun env bound _ hscope => ?_
    rw [visits_ident]
    refine depth_le_of_append (List.forall_mem_nil _) ?_
    simp only [Expr.infer, Inferred.value_bind, Inferred.value_pure, Env.resolve]
    cases hv : env.scope.lookup? name with
    | none => exact Nat.zero_le _
    | some v => cases env.inLambda <;> exact hscope.lookup? hv
  | unary site op operand ih =>
    refine depthLe_of_operation (fun _ _ => rfl) fun env bound hheight hscope => ?_
    rw [height] at hheight
    have hoperand := ih.1 env bound (by omega) hscope
    rw [visits_unary]
    refine depth_le_of_append hoperand ?_
    simp only [infer_unary, Inferred.value_bind, Inferred.value_pure]
    split
    · exact Nat.zero_le _
    · exact ih.value (by omega) hscope
  | binary site op left right ihl ihr =>
    refine depthLe_of_operation (fun _ _ => rfl) fun env bound hheight hscope => ?_
    rw [height] at hheight
    rw [visits_binary]
    refine depth_le_of_append (List.forall_mem_append.2 ⟨ihl.1 env bound (by omega) hscope,
      ihr.1 env bound (by omega) hscope⟩) ?_
    simp [Expr.infer]
  | range site first last ihf ihl =>
    refine depthLe_of_operation (fun _ _ => rfl) fun env bound hheight hscope => ?_
    rw [height] at hheight
    rw [visits_range]
    refine depth_le_of_append (List.forall_mem_append.2 ⟨ihf.1 env bound (by omega) hscope,
      ihl.1 env bound (by omega) hscope⟩) ?_
    simp only [Expr.infer, Inferred.value_bind, Inferred.value_pure, Ty.depth_sequenceOf]
    simp only [Ty.int, Ty.depth]
    omega
  | map site seq function ihs ihf =>
    refine depthLe_of_operation (fun _ _ => rfl) fun env bound hheight hscope => ?_
    rw [height] at hheight
    have hseq : (seq.infer env).value.depth ≤ bound := ihs.value (by omega) hscope
    have helement := depth_elementOf_le seq.span (seq.infer env).value
    have hfunction := ihf.2 .map [(elementOf seq.span (seq.infer env).value).value] (bound - 1)
      (by omega) (by
        intro t ht
        rw [List.mem_singleton.1 ht]
        omega)
    rw [visits_map]
    refine depth_le_of_append (List.forall_mem_append.2 ⟨ihs.1 env bound (by omega) hscope,
      fun v hv => Nat.le_trans (hfunction.1 v hv) (Nat.sub_le _ _)⟩) ?_
    simp only [Expr.infer, Inferred.value_bind, Inferred.value_pure]
    split
    · exact Nat.zero_le _
    · rw [Ty.depth_sequenceOf]
      omega
  | reduce site seq neutral function ihs ihn ihf =>
    refine depthLe_of_operation (fun _ _ => rfl) fun env bound hheight hscope => ?_
    rw [height] at hheight
    have hacc : ((Expr.reduce site seq neutral function).infer env).value.depth ≤ bound := by
      simp [infer_reduce]
    have hfunction := ihf.2 .reduce _ bound (by omega) (List.forall_mem_cons.2
      ⟨hacc, List.forall_mem_singleton.2 hacc⟩)
    rw [visits_reduce]
    exact depth_le_of_append (List.forall_mem_append.2 ⟨List.forall_mem_append.2
      ⟨ihs.1 env bound (by omega) hscope, ihn.1 env bound (by omega) hscope⟩,
      hfunction.1⟩) hacc
  | lambda site params body ih =>
    constructor
    · intro env bound _ _
      simp [Expr.infer]
    · intro c given bound hheight hgiven
      rw [height] at hheight
      have hscope := Scope.depthLe_empty.bindParams hgiven site.span params
      have hvisits := ih.1 ⟨_, true⟩ bound (by omega) hscope
      have hbody := hvisits _ (body.mem_visits_infer _)
      rw [visits_lambda]
      refine ⟨depth_le_of_append hvisits hbody, ?_⟩
      simpa [inferFunction_lambda] using hbody

end Expr

/-! ## Programs -/

theorem Scope.DepthLe.infer {scope : Scope} {bound : Nat} (h : scope.DepthLe bound) {s : Stmt}
    (hheight : s.value.height ≤ bound) (index : Nat) :
    (s.infer index scope).value.2.DepthLe bound := by
  have hvalue : (s.value.infer ⟨scope, false⟩).value.depth ≤ bound :=
    s.value.depth_le.value hheight h
  rcases s with ⟨target, value, span⟩
  cases target with
  | none => exact h
  | some name =>
    simp only [Stmt.infer, Inferred.value_bind]
    cases hdefine : scope.define ⟨name, (value.infer ⟨scope, false⟩).value⟩ with
    | ok wider => exact h.define hvalue hdefine
    | error v => exact h

theorem depth_visits_inferStmts_le {stmts : List Stmt} {bound : Nat}
    (hheight : ∀ s ∈ stmts, s.value.height ≤ bound) {scope : Scope} (h : scope.DepthLe bound)
    (index : Nat) :
    ∀ v ∈ (inferStmts index scope stmts).findings.visits, v.2.depth ≤ bound := by
  induction stmts generalizing index scope with
  | nil => simp [inferStmts]
  | cons s rest ih =>
    have hs := hheight s List.mem_cons_self
    simp only [inferStmts, Inferred.findings_bind, Findings.visits_append, visits_inferStmt,
      Inferred.findings_pure, Findings.visits_empty, List.append_nil]
    exact List.forall_mem_append.2 ⟨s.value.depth_le.1 _ bound hs h,
      ih (fun t ht => hheight t (List.mem_cons_of_mem s ht)) (h.infer hs index) (index + 1)⟩

/-- No type of a program is nested as deep as half a word could not tell. -/
theorem SoundProgram.depth_visits_lt (p : SoundProgram) :
    ∀ v ∈ p.visits, v.2.depth < UInt32.size := by
  have hheight : ∀ s ∈ p.stmts, s.value.height ≤ UInt32.size - 1 := by
    intro s hs
    rcases p.exists_unfolds hs with ⟨n, hn⟩
    have hid := n.kind.value.index.toNat_lt_size
    exact Nat.le_trans (Expr.height_le hn.value) (Nat.le_sub_one_of_lt hid)
  intro v hv
  have hle := depth_visits_inferStmts_le hheight Scope.depthLe_empty 0 v hv
  exact Nat.lt_of_le_sub_one (by decide) hle

end SeqCalc
