import SeqCalc.Program.Inspect

/-!
# Sound programs

A program is sound when its references lead somewhere and every node stands below its parents:
children come earlier in the table than the nodes that use them, so there are no cycles.
Validation lists every flaw, nodes before statements, each in table order.

Main results:

- `Program.children_lt_of_validate`, `Program.value_lt_of_validate`: in a program without flaws
  the references to nodes lead to earlier nodes.
-/

namespace SeqCalc

/-- A reference that leads nowhere. -/
inductive Flaw where
  /-- A node refers to itself, to a later node or beyond the table. -/
  | danglingChild (node : Nat) (child : NodeId)
  /-- A statement refers beyond the node table. -/
  | danglingValue (stmt : Nat) (value : NodeId)
  | unknownName (name : NameId)
  | paramsOutside (range : ParamRange)
deriving DecidableEq, Repr

/-- The text of a flaw, in the words of a syntax error. -/
def Flaw.message : Flaw → String
  | .danglingChild node child =>
    s!"malformed AST: expression {node} refers to expression {child.toNat}"
  | .danglingValue stmt value =>
    s!"malformed AST: statement {stmt} refers to expression {value.toNat}"
  | .unknownName name => s!"malformed AST: unknown identifier {name.inspect}"
  | .paramsOutside range =>
    s!"malformed AST: lambda parameters {range.inspect} are out of range"

namespace Arena

/-- The names that the name table does not have. -/
def nameFlaws (a : Arena) (names : List NameId) : List Flaw :=
  (names.filter fun n => decide (a.names.size ≤ n.toNat)).map .unknownName

/-- The flaws of the node at position `index`. -/
def nodeFlaws (a : Arena) (index : Nat) (node : Node) : List Flaw :=
  ((node.kind.children.filter fun c => decide (index ≤ c.toNat)).map (.danglingChild index)) ++
    match node.kind with
    | .ident name => a.nameFlaws [name]
    | .lambda range _ =>
      if range.stop ≤ a.params.size then a.nameFlaws (a.paramNames range)
      else [.paramsOutside range]
    | _ => []

/-- The flaws of the statement at position `index`. -/
def stmtFlaws (a : Arena) (index : Nat) (stmt : StmtNode) : List Flaw :=
  (if a.nodes.size ≤ stmt.kind.value.toNat then [.danglingValue index stmt.kind.value] else []) ++
    match stmt.kind with
    | .define name _ => a.nameFlaws [name]
    | .print _ => []

end Arena

namespace Program

/-- Every flaw of a program, at the span of the node or statement that has it. -/
def validate (p : Program) : List (Span × Flaw) :=
  (p.arena.nodes.toList.zipIdx.flatMap fun (node, i) =>
      (p.arena.nodeFlaws i node).map (node.span, ·)) ++
    p.stmts.toList.zipIdx.flatMap fun (stmt, i) =>
      (p.arena.stmtFlaws i stmt).map (stmt.span, ·)

theorem nodeFlaws_of_validate {p : Program} (h : p.validate = []) {i : Nat} {node : Node}
    (hn : p.arena.nodes[i]? = some node) : p.arena.nodeFlaws i node = [] := by
  simp only [validate, List.append_eq_nil_iff, List.flatMap_eq_nil_iff, List.map_eq_nil_iff] at h
  refine h.1 (node, i) ?_
  rw [List.mem_zipIdx_iff_getElem?]
  simpa using hn

theorem stmtFlaws_of_validate {p : Program} (h : p.validate = []) {i : Nat} {stmt : StmtNode}
    (hs : p.stmts[i]? = some stmt) : p.arena.stmtFlaws i stmt = [] := by
  simp only [validate, List.append_eq_nil_iff, List.flatMap_eq_nil_iff, List.map_eq_nil_iff] at h
  refine h.2 (stmt, i) ?_
  rw [List.mem_zipIdx_iff_getElem?]
  simpa using hs

/-- Without flaws, children stand below their parents. -/
theorem children_lt_of_validate {p : Program} (h : p.validate = []) {i : Nat} {node : Node}
    (hn : p.arena.nodes[i]? = some node) {c : NodeId} (hc : c ∈ node.kind.children) :
    c.toNat < i := by
  have hf := nodeFlaws_of_validate h hn
  simp only [Arena.nodeFlaws, List.append_eq_nil_iff, List.map_eq_nil_iff,
    List.filter_eq_nil_iff, decide_eq_true_eq] at hf
  exact Nat.lt_of_not_le (hf.1 c hc)

/-- Without flaws, the value of a statement is a node of the table. -/
theorem value_lt_of_validate {p : Program} (h : p.validate = []) {i : Nat} {stmt : StmtNode}
    (hs : p.stmts[i]? = some stmt) : stmt.kind.value.toNat < p.arena.nodes.size := by
  have hf := stmtFlaws_of_validate h hs
  simp only [Arena.stmtFlaws, List.append_eq_nil_iff] at hf
  have hv := hf.1
  split at hv
  · simp at hv
  · omega

end Program

/-- A program without flaws. -/
structure SoundProgram where
  program : Program
  sound : program.validate = []

end SeqCalc
