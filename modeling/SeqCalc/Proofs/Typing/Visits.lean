import SeqCalc.Proofs.Program.Trees
import SeqCalc.Proofs.Typing.Exactness

/-!
# Visits and reads

Inference visits the nodes of a tree from the leaves to the root and gives a type to each of them.
The table keeps the type of the last visit, so a type is found there again if no other visit of the
node gave it a different one.  In a forest every node is visited at most once.

Main results:

- `SoundProgram.visitsAgree_of_isForest`: in a forest no node is given two types.
- `SoundProgram.records_visits`: if no node is given two types, the table keeps every visit.
- `Expr.reads_infer`: the variables read by an expression are those of its names.
-/

namespace SeqCalc

/-! ## Recorded types -/

namespace TypeTable

/-- The table has the type that each of the visits gave. -/
def Records (types : TypeTable) (visits : List (NodeId × Ty)) : Prop :=
  ∀ v ∈ visits, types.get v.1 = v.2

@[simp]
theorem records_nil (types : TypeTable) : types.Records [] := by
  intro v hv
  contradiction

@[simp]
theorem records_append {types : TypeTable} {xs ys : List (NodeId × Ty)} :
    types.Records (xs ++ ys) ↔ types.Records xs ∧ types.Records ys :=
  List.forall_mem_append

@[simp]
theorem records_singleton {types : TypeTable} {id : NodeId} {t : Ty} :
    types.Records [(id, t)] ↔ types.get id = t := by
  simp [Records]

theorem size_set (types : TypeTable) (id : NodeId) (t : Ty) :
    (types.set id t).types.size = types.types.size := by
  simp [set]

/-- A node keeps a type that all its visits give. -/
theorem get_record {visits : List (NodeId × Ty)} {types : TypeTable} {id : NodeId} {t : Ty}
    (hsame : ∀ v ∈ visits, v.1 = id → v.2 = t) (hlt : id.toNat < types.types.size)
    (hfound : types.get id = t ∨ ∃ v ∈ visits, v.1 = id) : (types.record visits).get id = t := by
  induction visits generalizing types with
  | nil =>
    rcases hfound with hget | ⟨v, hv, _⟩
    · exact hget
    · contradiction
  | cons v rest ih =>
    refine ih (fun w hw => hsame w (List.mem_cons_of_mem v hw)) ?_ ?_
    · rw [size_set]
      exact hlt
    · by_cases hv : v.1 = id
      · left
        rw [get_set, if_pos ⟨hv, hv ▸ hlt⟩]
        exact hsame v List.mem_cons_self hv
      · rcases hfound with hget | ⟨w, hw, hid⟩
        · left
          rw [get_set, if_neg (fun h => hv h.1)]
          exact hget
        · right
          rcases List.mem_cons.1 hw with rfl | hw
          · exact absurd hid hv
          · exact ⟨w, hw, hid⟩

end TypeTable

/-! ## Single steps

The checks between the visits of operands visit nothing themselves, and they read nothing.
-/

@[simp]
theorem visits_reads_elementOf (span : Span) (t : Ty) :
    (elementOf span t).findings.visits = [] ∧ (elementOf span t).findings.reads = [] := by
  unfold elementOf
  split
  · exact ⟨rfl, rfl⟩
  · split <;> exact ⟨rfl, rfl⟩

@[simp]
theorem visits_reads_checkBound (span : Span) (t : Ty) :
    (checkBound span t).findings.visits = [] ∧ (checkBound span t).findings.reads = [] := by
  unfold checkBound
  split <;> exact ⟨rfl, rfl⟩

@[simp]
theorem visits_reads_combine (site : Site) (op : BinaryOp) (t u : Ty) :
    (combine site op t u).findings.visits = [] ∧
      (combine site op t u).findings.reads = [] := by
  unfold combine
  split
  · exact ⟨rfl, rfl⟩
  · split <;> exact ⟨rfl, rfl⟩

@[simp]
theorem visits_reads_accumulator (s₁ s₂ : Span) (t u : Ty) :
    (accumulator s₁ s₂ t u).findings.visits = [] ∧
      (accumulator s₁ s₂ t u).findings.reads = [] := by
  unfold accumulator
  split
  · exact ⟨rfl, rfl⟩
  · cases t.isSequence <;> cases u.isSequence <;> exact ⟨rfl, rfl⟩

@[simp]
theorem visits_reads_bindParams (span : Span) (names : List String) (scope : Scope)
    (given : List Ty) :
    (bindParams span scope names given).findings.visits = [] ∧
      (bindParams span scope names given).findings.reads = [] := by
  induction names generalizing scope given with
  | nil => exact ⟨rfl, rfl⟩
  | cons name names ih =>
    unfold bindParams
    split
    · exact ih _ _
    · exact ih _ _

@[simp]
theorem visits_resolve (env : Env) (site : Site) (name : String) :
    (env.resolve site name).findings.visits = [] := by
  unfold Env.resolve
  split
  · cases env.inLambda <;> rfl
  · rfl

/-- A name is read where it is found, but not inside a function literal. -/
theorem reads_resolve (env : Env) (site : Site) (name : String) :
    (env.resolve site name).findings.reads =
      if env.inLambda then [] else (env.scope.lookup? name).toList := by
  unfold Env.resolve
  cases env.scope.lookup? name with
  | none => cases env.inLambda <;> rfl
  | some v => cases env.inLambda <;> rfl

/-! ## Visits -/

namespace Expr

/-! The visits of an operation are those of its operands and then that of its root. -/

theorem visits_unary (env : Env) (site : Site) (op : UnaryOp) (operand : Expr) :
    ((Expr.unary site op operand).infer env).findings.visits =
      (operand.infer env).findings.visits ++
        [(site.id, ((Expr.unary site op operand).infer env).value)] := by
  simp [infer_unary]

theorem visits_binary (env : Env) (site : Site) (op : BinaryOp) (left right : Expr) :
    ((Expr.binary site op left right).infer env).findings.visits =
      (left.infer env).findings.visits ++ (right.infer env).findings.visits ++
        [(site.id, ((Expr.binary site op left right).infer env).value)] := by
  simp [Expr.infer]

theorem visits_range (env : Env) (site : Site) (first last : Expr) :
    ((Expr.range site first last).infer env).findings.visits =
      (first.infer env).findings.visits ++ (last.infer env).findings.visits ++
        [(site.id, ((Expr.range site first last).infer env).value)] := by
  simp [Expr.infer]

theorem visits_map (env : Env) (site : Site) (seq function : Expr) :
    ((Expr.map site seq function).infer env).findings.visits =
      (seq.infer env).findings.visits ++
        (function.inferFunction .map
          [(elementOf seq.span (seq.infer env).value).value]).findings.visits ++
        [(site.id, ((Expr.map site seq function).infer env).value)] := by
  simp [Expr.infer]

theorem visits_reduce (env : Env) (site : Site) (seq neutral function : Expr) :
    ((Expr.reduce site seq neutral function).infer env).findings.visits =
      (seq.infer env).findings.visits ++ (neutral.infer env).findings.visits ++
        (function.inferFunction .reduce
          [((Expr.reduce site seq neutral function).infer env).value,
            ((Expr.reduce site seq neutral function).infer env).value]).findings.visits ++
        [(site.id, ((Expr.reduce site seq neutral function).infer env).value)] := by
  simp [infer_reduce]

theorem visits_lambda (c : Combinator) (given : List Ty) (site : Site) (params : List String)
    (body : Expr) :
    ((Expr.lambda site params body).inferFunction c given).findings.visits =
      (body.infer ⟨(bindParams site.span .empty params given).value, true⟩).findings.visits ++
        [(site.id,
          (body.infer ⟨(bindParams site.span .empty params given).value, true⟩).value)] := by
  simp [inferFunction_lambda]

theorem visits_ident (env : Env) (site : Site) (name : String) :
    ((Expr.ident site name).infer env).findings.visits =
      [(site.id, ((Expr.ident site name).infer env).value)] := by
  simp [Expr.infer]

/-- The function literal of a typed `map` is visited with the type of its body. -/
theorem HasType.visits_map {env : Env} {site inner : Site} {seq body : Expr} {x : String}
    {t u : Ty} (ht : t.IsProper) (hseq : HasType env.scope.types seq t.sequenceOf)
    (hbody : HasType (Context.empty.extend x t) body u) :
    ((Expr.map site seq (.lambda inner [x] body)).infer env).findings.visits =
      (seq.infer env).findings.visits ++
        ((body.infer ⟨⟨[⟨x, t⟩]⟩, true⟩).findings.visits ++ [(inner.id, u)]) ++
        [(site.id, u.sequenceOf)] := by
  have htyped : HasType env.scope.types (.map site seq (.lambda inner [x] body)) u.sequenceOf :=
    .map ht hseq hbody
  have helement : (elementOf seq.span (seq.infer env).value).value = t := by
    rw [hseq.value_infer, elementOf_eq_pure ht.element?_sequenceOf]
    rfl
  have hresult := (hbody.infer ⟨⟨[⟨x, t⟩]⟩, true⟩ (Scope.types_one x t)).1
  rw [Expr.visits_map, htyped.value_infer, helement, visits_lambda, bindParams_one,
    Inferred.value_pure, hresult]

/-- The function literal of a typed `reduce` is visited with the type of the accumulator. -/
theorem HasType.visits_reduce {env : Env} {site inner : Site} {seq neutral body : Expr}
    {acc x : String} {p q r : Scalar} (hp : p.isNumeric = true) (hq : q.isNumeric = true)
    (hne : acc ≠ x) (hr : r = p.widest q)
    (hseq : HasType env.scope.types seq (Ty.scalar p).sequenceOf)
    (hneutral : HasType env.scope.types neutral (.scalar q))
    (hbody : HasType ((Context.empty.extend acc (.scalar r)).extend x (.scalar r)) body
      (.scalar r)) :
    ((Expr.reduce site seq neutral (.lambda inner [acc, x] body)).infer env).findings.visits =
      (seq.infer env).findings.visits ++ (neutral.infer env).findings.visits ++
        ((body.infer ⟨⟨[⟨acc, .scalar r⟩, ⟨x, .scalar r⟩]⟩, true⟩).findings.visits ++
          [(inner.id, .scalar r)]) ++
        [(site.id, .scalar r)] := by
  subst hr
  have htyped : HasType env.scope.types (.reduce site seq neutral (.lambda inner [acc, x] body))
      (.scalar (p.widest q)) := .reduce hp hq hne hseq hneutral hbody
  have hresult := (hbody.infer ⟨⟨[⟨acc, _⟩, ⟨x, _⟩]⟩, true⟩ (Scope.types_two hne _ _)).1
  rw [Expr.visits_reduce, htyped.value_infer, visits_lambda, bindParams_two _ hne,
    Inferred.value_pure, hresult]

/-- The last visit of an expression is that of its root, with the type found for it. -/
theorem mem_visits_infer (e : Expr) (env : Env) :
    (e.id, (e.infer env).value) ∈ (e.infer env).findings.visits := by
  cases e with
  | int | float | ident | lambda => simp [Expr.infer, id, site]
  | unary => simp [visits_unary, id, site]
  | binary => simp [visits_binary, id, site]
  | range => simp [visits_range, id, site]
  | map => simp [visits_map, id, site]
  | reduce => simp [visits_reduce, id, site]

/--
Every visit is one of a node of the tree, in the order of the tree; some nodes may be left out.
A function literal is visited as such only where it is an operand.
-/
theorem visits_sublist (e : Expr) :
    (∀ env, ((e.infer env).findings.visits.map Prod.fst).Sublist e.ids) ∧
      ∀ c given, ((e.inferFunction c given).findings.visits.map Prod.fst).Sublist e.ids := by
  induction e with
  | int | float | ident => simp [Expr.infer, inferFunction, ids]
  | unary site op operand ih =>
    refine ⟨fun env => ?_, by simp [inferFunction]⟩
    rw [visits_unary, List.map_append]
    exact (ih.1 env).append (.refl _)
  | binary site op left right ihl ihr =>
    refine ⟨fun env => ?_, by simp [inferFunction]⟩
    rw [visits_binary, List.map_append, List.map_append]
    exact ((ihl.1 env).append (ihr.1 env)).append (.refl _)
  | range site first last ihf ihl =>
    refine ⟨fun env => ?_, by simp [inferFunction]⟩
    rw [visits_range, List.map_append, List.map_append]
    exact ((ihf.1 env).append (ihl.1 env)).append (.refl _)
  | map site seq function ihs ihf =>
    refine ⟨fun env => ?_, by simp [inferFunction]⟩
    rw [visits_map, List.map_append, List.map_append]
    exact ((ihs.1 env).append (ihf.2 _ _)).append (.refl _)
  | reduce site seq neutral function ihs ihn ihf =>
    refine ⟨fun env => ?_, by simp [inferFunction]⟩
    rw [visits_reduce, List.map_append, List.map_append, List.map_append]
    exact (((ihs.1 env).append (ihn.1 env)).append (ihf.2 _ _)).append (.refl _)
  | lambda site params body ih =>
    constructor
    · intro env
      simp [Expr.infer, ids]
    · intro c given
      rw [visits_lambda, List.map_append]
      exact (ih.1 _).append (.refl _)

/-! ## Reads -/

/-- Outside function literals the variables read are those of the names, inside there are none. -/
theorem reads_infer (e : Expr) :
    (∀ env, (e.infer env).findings.reads =
        if env.inLambda then [] else e.names.filterMap env.scope.lookup?) ∧
      ∀ c given, (e.inferFunction c given).findings.reads = [] := by
  induction e with
  | int | float =>
    simp [Expr.infer, inferFunction, names]
  | ident site name =>
    refine ⟨fun env => ?_, by simp [inferFunction]⟩
    simp only [Expr.infer, Inferred.findings_bind, Findings.reads_append, reads_resolve]
    cases h : env.scope.lookup? name <;> simp [names, h]
  | unary site op operand ih =>
    refine ⟨fun env => ?_, by simp [inferFunction]⟩
    simp [infer_unary, ih.1, names]
  | binary site op left right ihl ihr =>
    refine ⟨fun env => ?_, by simp [inferFunction]⟩
    cases h : env.inLambda <;> simp [Expr.infer, ihl.1, ihr.1, names, h]
  | range site first last ihf ihl =>
    refine ⟨fun env => ?_, by simp [inferFunction]⟩
    cases h : env.inLambda <;> simp [Expr.infer, ihf.1, ihl.1, names, h]
  | map site seq function ihs ihf =>
    refine ⟨fun env => ?_, by simp [inferFunction]⟩
    simp [Expr.infer, ihs.1, ihf.2, names]
  | reduce site seq neutral function ihs ihn ihf =>
    refine ⟨fun env => ?_, by simp [inferFunction]⟩
    cases h : env.inLambda <;> simp [infer_reduce, ihs.1, ihn.1, ihf.2, names, h]
  | lambda site params body ih =>
    constructor
    · intro env
      simp [Expr.infer, names]
    · intro c given
      simp [inferFunction_lambda, ih.1]

end Expr

/-! ## Programs -/

theorem visits_inferStmt (index : Nat) (scope : Scope) (s : Stmt) :
    (s.infer index scope).findings.visits = (s.value.infer ⟨scope, false⟩).findings.visits := by
  rcases s with ⟨target, value, span⟩
  cases target with
  | none => simp [Stmt.infer]
  | some name =>
    simp only [Stmt.infer, Inferred.findings_bind, Findings.visits_append]
    cases scope.define ⟨name, (value.infer ⟨scope, false⟩).value⟩ <;> simp

theorem visits_inferStmts_sublist (stmts : List Stmt) (index : Nat) (scope : Scope) :
    ((inferStmts index scope stmts).findings.visits.map Prod.fst).Sublist
      (stmts.flatMap fun s => s.value.ids) := by
  induction stmts generalizing index scope with
  | nil => exact .slnil
  | cons s rest ih =>
    simp only [inferStmts, Inferred.findings_bind, Findings.visits_append, visits_inferStmt,
      Inferred.findings_pure, Findings.visits_empty, List.append_nil, List.map_append,
      List.flatMap_cons]
    exact (s.value.visits_sublist.1 _).append (ih _ _)

namespace SoundProgram

/-- The visits of inference, in order, with the types that they give. -/
def visits (p : SoundProgram) : List (NodeId × Ty) :=
  (inferStmts 0 .empty p.stmts).findings.visits

/-- No node is given two different types. -/
def VisitsAgree (p : SoundProgram) : Prop :=
  ∀ v ∈ p.visits, ∀ w ∈ p.visits, v.1 = w.1 → v.2 = w.2

instance (p : SoundProgram) : Decidable p.VisitsAgree :=
  inferInstanceAs (Decidable (∀ v ∈ p.visits, ∀ w ∈ p.visits, v.1 = w.1 → v.2 = w.2))

theorem visits_sublist (p : SoundProgram) : (p.visits.map Prod.fst).Sublist p.ids :=
  visits_inferStmts_sublist p.stmts 0 .empty

/-- In a forest no node is given two types, since none is visited twice. -/
theorem visitsAgree_of_isForest (p : SoundProgram) (h : p.program.IsForest) : p.VisitsAgree := by
  have hnodup : (p.visits.map Prod.fst).Nodup :=
    p.visits_sublist.nodup (p.nodup_ids_of_isForest h)
  intro v hv w hw hid
  rw [List.inj_on_of_nodup_map hnodup hv hw hid]

/-- If no node is given two types, the table keeps the type that each visit gave. -/
theorem records_visits (p : SoundProgram) (h : p.VisitsAgree) :
    p.infer.table.Records p.visits := by
  intro v hv
  refine TypeTable.get_record (fun w hw hid => h w hw v hv hid) ?_ (.inr ⟨v, hv, rfl⟩)
  have hid : v.1 ∈ p.ids := p.visits_sublist.subset (List.mem_map_of_mem hv)
  simpa [TypeTable.unvisited] using p.lt_size_of_mem_ids hid

end SoundProgram
end SeqCalc
