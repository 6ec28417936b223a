import SeqCalc.Proofs.Program.Validity
import SeqCalc.Program.Expr

/-!
# Programs with other names

The names of a tree are of two kinds.  Outside function literals they are those of variables, and
inside the body of a function literal they are those of its parameters, up to the function literals
that are nested in it.  So a tree is renamed by one map for the variables and by a list of new
parameters for each function literal, which the names of its own body follow.  No name is avoided:
new parameters may be called like variables or like the parameters around them.

In the tables a renaming touches nothing but the references to names and to parameter lists.

Main results:

- `Program.validate_eq_nil_of_nameless`: other names in the tables do no harm, if they are there.
- `SoundProgram.RenamedTo.validate_eq_nil`: a renamed program has no flaws.
-/

namespace SeqCalc

/-! ## Trees -/

/-- What becomes of a name if the names of one list are replaced by those of another. -/
def replacing (old new : List String) (name : String) : String :=
  ((old.zip new).lookup name).getD name

theorem replacing_one (x y : String) : replacing [x] [y] x = y := by
  simp [replacing]

theorem replacing_first (x y x' y' : String) : replacing [x, y] [x', y'] x = x' := by
  simp [replacing]

theorem replacing_second {x y : String} (hne : x ≠ y) (x' y' : String) :
    replacing [x, y] [x', y'] y = y' := by
  have hyx : (y == x) = false := beq_eq_false_iff_ne.2 hne.symm
  simp [replacing, List.lookup_cons, hyx]

namespace Expr

/-- The function literals of a tree, also those inside others, with their parameters. -/
def lambdas : Expr → List (NodeId × List String)
  | .int _ _ | .float _ _ | .ident _ _ => []
  | .unary _ _ operand => operand.lambdas
  | .binary _ _ left right => left.lambdas ++ right.lambdas
  | .range _ first last => first.lambdas ++ last.lambdas
  | .map _ seq function => seq.lambdas ++ function.lambdas
  | .reduce _ seq neutral function => seq.lambdas ++ neutral.lambdas ++ function.lambdas
  | .lambda site params body => (site.id, params) :: body.lambdas

/--
The tree with other names.  Those outside function literals are mapped.  The function literal at a
node gets the parameters that are chosen for the node, and the names of its body follow these.
-/
def renamed (params : NodeId → List String) (σ : String → String) : Expr → Expr
  | .int site value => .int site value
  | .float site bits => .float site bits
  | .ident site name => .ident site (σ name)
  | .unary site op operand => .unary site op (operand.renamed params σ)
  | .binary site op left right =>
    .binary site op (left.renamed params σ) (right.renamed params σ)
  | .range site first last => .range site (first.renamed params σ) (last.renamed params σ)
  | .map site seq function => .map site (seq.renamed params σ) (function.renamed params σ)
  | .reduce site seq neutral function =>
    .reduce site (seq.renamed params σ) (neutral.renamed params σ) (function.renamed params σ)
  | .lambda site old body =>
    .lambda site (params site.id) (body.renamed params (replacing old (params site.id)))

/-- Every function literal gets as many parameters as it had, and no two of one name. -/
def Admits (params : NodeId → List String) (e : Expr) : Prop :=
  ∀ l ∈ e.lambdas, (params l.1).length = l.2.length ∧ (params l.1).Nodup

instance (params : NodeId → List String) (e : Expr) : Decidable (e.Admits params) :=
  inferInstanceAs
    (Decidable (∀ l ∈ e.lambdas, (params l.1).length = l.2.length ∧ (params l.1).Nodup))

variable {params : NodeId → List String}

@[simp]
theorem admits_unary {site : Site} {op : UnaryOp} {operand : Expr} :
    (Expr.unary site op operand).Admits params ↔ operand.Admits params :=
  Iff.rfl

@[simp]
theorem admits_binary {site : Site} {op : BinaryOp} {left right : Expr} :
    (Expr.binary site op left right).Admits params ↔
      left.Admits params ∧ right.Admits params :=
  List.forall_mem_append

@[simp]
theorem admits_range {site : Site} {first last : Expr} :
    (Expr.range site first last).Admits params ↔ first.Admits params ∧ last.Admits params :=
  List.forall_mem_append

@[simp]
theorem admits_map {site : Site} {seq function : Expr} :
    (Expr.map site seq function).Admits params ↔ seq.Admits params ∧ function.Admits params :=
  List.forall_mem_append

@[simp]
theorem admits_reduce {site : Site} {seq neutral function : Expr} :
    (Expr.reduce site seq neutral function).Admits params ↔
      (seq.Admits params ∧ neutral.Admits params) ∧ function.Admits params := by
  simp only [Admits, lambdas, List.forall_mem_append]

@[simp]
theorem admits_lambda {site : Site} {old : List String} {body : Expr} :
    (Expr.lambda site old body).Admits params ↔
      ((params site.id).length = old.length ∧ (params site.id).Nodup) ∧ body.Admits params :=
  List.forall_mem_cons

@[simp]
theorem site_renamed (params : NodeId → List String) (σ : String → String) (e : Expr) :
    (e.renamed params σ).site = e.site := by
  cases e <;> rfl

end Expr

/-- The statement with other names, for its variables and for the parameters in it. -/
def Stmt.renamed (params : NodeId → List String) (σ : String → String) (s : Stmt) : Stmt where
  target := s.target.map σ
  value := s.value.renamed params σ
  span := s.span

/-! ## Tables -/

/-- The node without the names that it refers to. -/
def Node.nameless (node : Node) : Node :=
  match node.kind with
  | .ident _ => { node with kind := .ident ⟨0⟩ }
  | .lambda _ body => { node with kind := .lambda ⟨0, 0⟩ body }
  | _ => node

/-- The statement without the name that it defines. -/
def StmtNode.nameless (stmt : StmtNode) : StmtNode :=
  match stmt.kind with
  | .define _ value => { stmt with kind := .define ⟨0⟩ value }
  | .print _ => stmt

@[simp]
theorem Node.children_nameless (node : Node) :
    node.nameless.kind.children = node.kind.children := by
  rcases node with ⟨kind, span⟩
  cases kind <;> rfl

@[simp]
theorem StmtNode.value_nameless (stmt : StmtNode) :
    stmt.nameless.kind.value = stmt.kind.value := by
  rcases stmt with ⟨kind, span⟩
  cases kind <;> rfl

/-- A reference to a name or to a parameter list. -/
def Reference.IsNominal : Reference → Prop
  | .name _ | .params _ => True
  | .child _ _ | .value _ _ => False

instance : DecidablePred Reference.IsNominal
  | .name _ | .params _ => isTrue trivial
  | .child _ _ | .value _ _ => isFalse id

namespace Program

/-- The tables and the statements without any names. -/
def nameless (p : Program) : Program where
  arena := ⟨p.arena.nodes.map Node.nameless, #[], #[]⟩
  stmts := p.stmts.map StmtNode.nameless

/-- The names and parameter lists that a program refers to are in its tables. -/
def Named (p : Program) : Prop :=
  ∀ r ∈ p.spannedReferences, r.2.IsNominal → r.2.Resolves p.arena

instance (p : Program) : Decidable p.Named :=
  inferInstanceAs (Decidable (∀ r ∈ p.spannedReferences, r.2.IsNominal → r.2.Resolves p.arena))

variable {p q : Program}

theorem size_of_nameless (h : q.nameless = p.nameless) :
    q.arena.nodes.size = p.arena.nodes.size := by
  have hnodes := congrArg (fun r => r.arena.nodes.size) h
  simpa [nameless] using hnodes

theorem node_of_nameless (h : q.nameless = p.nameless) {i : Nat} {node : Node}
    (hnode : q.arena.nodes[i]? = some node) :
    ∃ old, p.arena.nodes[i]? = some old ∧ old.nameless = node.nameless := by
  have hnodes := congrArg (fun r => r.arena.nodes[i]?) h
  simp only [nameless, Array.getElem?_map, hnode, Option.map_some] at hnodes
  exact Option.map_eq_some_iff.1 hnodes.symm

theorem stmt_of_nameless (h : q.nameless = p.nameless) {i : Nat} {stmt : StmtNode}
    (hstmt : q.stmts[i]? = some stmt) :
    ∃ old, p.stmts[i]? = some old ∧ old.nameless = stmt.nameless := by
  have hstmts := congrArg (fun r => r.stmts[i]?) h
  simp only [nameless, Array.getElem?_map, hstmt, Option.map_some] at hstmts
  exact Option.map_eq_some_iff.1 hstmts.symm

/-- A program that differs from one without flaws in names has none, if its names are there. -/
theorem validate_eq_nil_of_nameless (hp : p.validate = []) (h : q.nameless = p.nameless)
    (hnamed : q.Named) : q.validate = [] := by
  rw [validate_eq, List.map_eq_nil_iff, List.filter_eq_nil_iff]
  intro r hr
  suffices hresolves : r.2.Resolves q.arena by simpa using hresolves
  by_cases hnominal : r.2.IsNominal
  · exact hnamed r hr hnominal
  -- the references to nodes are those of the original, which all lead to nodes
  simp only [spannedReferences, List.mem_append, List.mem_flatMap, List.mem_map, Prod.exists,
    List.mem_zipIdx_iff_getElem?, Array.getElem?_toList] at hr
  rcases hr with ⟨node, i, hnode, r, hr, rfl⟩ | ⟨stmt, i, hstmt, r, hr, rfl⟩
  · rcases node_of_nameless h hnode with ⟨old, hold, hsame⟩
    rcases Arena.mem_nodeReferences.1 hr with
      ⟨c, hc, rfl⟩ | ⟨name, _, rfl⟩ | ⟨range, body, _, rfl | ⟨name, _, rfl⟩⟩
    · rw [← node.children_nameless, ← hsame, old.children_nameless] at hc
      exact children_lt_of_validate hp hold hc
    · exact absurd trivial hnominal
    · exact absurd trivial hnominal
    · exact absurd trivial hnominal
  · rcases stmt_of_nameless h hstmt with ⟨old, hold, hsame⟩
    rcases Arena.mem_stmtReferences.1 hr with rfl | ⟨name, value, _, rfl⟩
    · have hlt := value_lt_of_validate hp hold
      rw [← old.value_nameless, hsame, stmt.value_nameless] at hlt
      rw [← size_of_nameless h] at hlt
      exact hlt
    · exact absurd trivial hnominal

end Program

namespace SoundProgram

/--
A program with other names: `σ` for the variables of statements, and for the function literals at
the nodes the parameters that are chosen for them.
-/
structure RenamedTo (p : SoundProgram) (params : NodeId → List String) (σ : String → String)
    (q : Program) : Prop where
  /-- Nothing but names and parameter lists is changed in the tables. -/
  nameless_eq : q.nameless = p.program.nameless
  /-- The new names and parameter lists are entries of the tables. -/
  named : q.Named
  /-- Each function literal has pairwise distinct parameters, and as many of them as before. -/
  admits : ∀ s ∈ p.stmts, s.value.Admits params
  /-- The trees have the new names. -/
  resolve?_eq : q.resolve? = some (p.stmts.map (Stmt.renamed params σ))

instance (p : SoundProgram) (params : NodeId → List String) (σ : String → String) (q : Program) :
    Decidable (p.RenamedTo params σ q) :=
  decidable_of_iff
    (q.nameless = p.program.nameless ∧ q.Named ∧ (∀ s ∈ p.stmts, s.value.Admits params) ∧
      q.resolve? = some (p.stmts.map (Stmt.renamed params σ)))
    ⟨fun h => ⟨h.1, h.2.1, h.2.2.1, h.2.2.2⟩,
      fun h => ⟨h.nameless_eq, h.named, h.admits, h.resolve?_eq⟩⟩

variable {p : SoundProgram} {params : NodeId → List String} {σ : String → String}

/-- A renamed program has no flaws. -/
theorem RenamedTo.validate_eq_nil {q : Program} (h : p.RenamedTo params σ q) : q.validate = [] :=
  Program.validate_eq_nil_of_nameless p.sound h.nameless_eq h.named

theorem RenamedTo.stmts_eq {q : SoundProgram} (h : p.RenamedTo params σ q.program) :
    q.stmts = p.stmts.map (Stmt.renamed params σ) :=
  Option.get_of_eq_some _ h.resolve?_eq

end SoundProgram
end SeqCalc
