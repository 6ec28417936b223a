import SeqCalc.Program.Validity

/-!
# Exactness of validation

A program is well formed when each of its references leads where it should: children to earlier
nodes, statements into the node table, names into the name table and parameter lists into the
parameter table.  Validation goes through the references in order, and the flaws that it lists are
those of the references that lead nowhere, one for each.

Main results:

- `Program.validate_eq`: the flaws of a program are those of its unresolved references, in order.
- `Program.validate_eq_nil_iff`: programs without flaws are the well-formed ones.
-/

namespace SeqCalc

/-! ## Well-formed programs -/

/-- What a program is checked for.  Entries of the parameter table that no lambda uses are free. -/
structure Program.WellFormed (p : Program) : Prop where
  /-- The children of the node at position `i` stand below it. -/
  children_lt : ∀ (i : Nat) (node : Node), p.arena.nodes[i]? = some node →
    ∀ c ∈ node.kind.children, c.toNat < i
  /-- The name of an identifier is in the name table. -/
  ident_lt : ∀ node ∈ p.arena.nodes, ∀ name, node.kind = .ident name →
    name.toNat < p.arena.names.size
  /-- The parameters of a lambda lie inside the parameter table. -/
  params_le : ∀ node ∈ p.arena.nodes, ∀ range body, node.kind = .lambda range body →
    range.stop ≤ p.arena.params.size
  /-- The name of each parameter of a lambda is in the name table. -/
  param_lt : ∀ node ∈ p.arena.nodes, ∀ range body, node.kind = .lambda range body →
    ∀ (j : Nat) (name : NameId), range.start.toNat ≤ j → j < range.stop →
      p.arena.params[j]? = some name → name.toNat < p.arena.names.size
  /-- The value of a statement is in the node table. -/
  value_lt : ∀ s ∈ p.stmts, s.kind.value.toNat < p.arena.nodes.size
  /-- The name that a statement defines is in the name table. -/
  target_lt : ∀ s ∈ p.stmts, ∀ name value, s.kind = .define name value →
    name.toNat < p.arena.names.size

/-! ## References -/

/-- Something that a node or a statement refers to. -/
inductive Reference where
  | child (parent : Nat) (id : NodeId)
  | value (stmt : Nat) (id : NodeId)
  | name (id : NameId)
  | params (range : ParamRange)
deriving DecidableEq, Repr

namespace Reference

/-- Whether a reference leads where it should. -/
def Resolves (a : Arena) : Reference → Prop
  | .child parent id => id.toNat < parent
  | .value _ id => id.toNat < a.nodes.size
  | .name id => id.toNat < a.names.size
  | .params range => range.stop ≤ a.params.size

instance (a : Arena) : DecidablePred (Resolves a)
  | .child parent id => inferInstanceAs (Decidable (id.toNat < parent))
  | .value _ id => inferInstanceAs (Decidable (id.toNat < a.nodes.size))
  | .name id => inferInstanceAs (Decidable (id.toNat < a.names.size))
  | .params range => inferInstanceAs (Decidable (range.stop ≤ a.params.size))

/-- The flaw of a program in which the reference leads nowhere. -/
def flaw : Reference → Flaw
  | .child parent id => .danglingChild parent id
  | .value stmt id => .danglingValue stmt id
  | .name id => .unknownName id
  | .params range => .paramsOutside range

end Reference

namespace Arena

/--
The references of the node at position `index`.  A parameter list that leaves the table refers to
no names.
-/
def nodeReferences (a : Arena) (index : Nat) (node : Node) : List Reference :=
  node.kind.children.map (.child index) ++
    match node.kind with
    | .ident name => [.name name]
    | .lambda range _ => .params range :: (a.paramNames range).map .name
    | _ => []

/-- The references of the statement at position `index`. -/
def stmtReferences (index : Nat) (stmt : StmtNode) : List Reference :=
  [.value index stmt.kind.value] ++
    match stmt.kind with
    | .define name _ => [.name name]
    | .print _ => []

/-- The flaws of the references that lead nowhere. -/
def flawsOf (a : Arena) (references : List Reference) : List Flaw :=
  (references.filter fun r => ¬ r.Resolves a).map Reference.flaw

@[simp]
theorem flawsOf_nil (a : Arena) : a.flawsOf [] = [] :=
  rfl

@[simp]
theorem flawsOf_append (a : Arena) (rs ss : List Reference) :
    a.flawsOf (rs ++ ss) = a.flawsOf rs ++ a.flawsOf ss := by
  simp [flawsOf]

theorem flawsOf_cons (a : Arena) (r : Reference) (rs : List Reference) :
    a.flawsOf (r :: rs) = if r.Resolves a then a.flawsOf rs else r.flaw :: a.flawsOf rs := by
  by_cases h : r.Resolves a
  · simp [flawsOf, h]
  · simp [flawsOf, h]

theorem flawsOf_children (a : Arena) (index : Nat) (children : List NodeId) :
    a.flawsOf (children.map (.child index)) =
      (children.filter fun c => decide (index ≤ c.toNat)).map (.danglingChild index) := by
  induction children with
  | nil => rfl
  | cons c rest ih =>
    rw [List.map_cons, flawsOf_cons, ih]
    by_cases h : (Reference.child index c).Resolves a
    · rw [if_pos h, List.filter_cons_of_neg (by simpa [Reference.Resolves] using h)]
    · rw [if_neg h, List.filter_cons_of_pos (by simpa [Reference.Resolves] using h)]
      rfl

theorem flawsOf_names (a : Arena) (names : List NameId) :
    a.flawsOf (names.map .name) = a.nameFlaws names := by
  induction names with
  | nil => rfl
  | cons n rest ih =>
    rw [List.map_cons, flawsOf_cons, ih, nameFlaws, nameFlaws]
    by_cases h : (Reference.name n).Resolves a
    · rw [if_pos h, List.filter_cons_of_neg (by simpa [Reference.Resolves] using h)]
    · rw [if_neg h, List.filter_cons_of_pos (by simpa [Reference.Resolves] using h)]
      rfl

theorem nodeFlaws_eq (a : Arena) (index : Nat) (node : Node) :
    a.nodeFlaws index node = a.flawsOf (a.nodeReferences index node) := by
  rw [nodeFlaws, nodeReferences, flawsOf_append, flawsOf_children]
  congr 1
  cases node.kind with
  | ident name => exact (a.flawsOf_names [name]).symm
  | lambda range body =>
    dsimp only
    rw [flawsOf_cons, flawsOf_names]
    by_cases h : (Reference.params range).Resolves a
    · have hinside : range.stop ≤ a.params.size := h
      rw [if_pos hinside, if_pos h]
    · have houtside : ¬ range.stop ≤ a.params.size := h
      rw [if_neg houtside, if_neg h, paramNames, if_neg houtside]
      rfl
  | int | float | binary | unary | range | map | reduce => rfl

theorem stmtFlaws_eq (a : Arena) (index : Nat) (stmt : StmtNode) :
    a.stmtFlaws index stmt = a.flawsOf (stmtReferences index stmt) := by
  have hvalue : (if a.nodes.size ≤ stmt.kind.value.toNat then
        [Flaw.danglingValue index stmt.kind.value] else []) =
      a.flawsOf [.value index stmt.kind.value] := by
    rw [flawsOf_cons]
    by_cases h : (Reference.value index stmt.kind.value).Resolves a
    · have hinside : stmt.kind.value.toNat < a.nodes.size := h
      rw [if_pos h, if_neg (Nat.not_le.2 hinside), flawsOf_nil]
    · have houtside : ¬ stmt.kind.value.toNat < a.nodes.size := h
      rw [if_neg h, if_pos (Nat.not_lt.1 houtside)]
      rfl
  rw [stmtFlaws, stmtReferences, flawsOf_append, hvalue]
  congr 1
  cases stmt.kind with
  | define name value => exact (a.flawsOf_names [name]).symm
  | print value => rfl

theorem mem_nodeReferences {a : Arena} {index : Nat} {node : Node} {r : Reference} :
    r ∈ a.nodeReferences index node ↔
      (∃ c ∈ node.kind.children, r = .child index c) ∨
        (∃ name, node.kind = .ident name ∧ r = .name name) ∨
        ∃ range body, node.kind = .lambda range body ∧
          (r = .params range ∨ ∃ name ∈ a.paramNames range, r = .name name) := by
  rw [nodeReferences, List.mem_append, List.mem_map]
  simp only [eq_comm (a := r)]
  refine or_congr Iff.rfl ?_
  cases node.kind with
  | ident name => simp [eq_comm]
  | lambda range body => simp [eq_comm]
  | int | float | binary | unary | range | map | reduce => simp

theorem mem_stmtReferences {index : Nat} {stmt : StmtNode} {r : Reference} :
    r ∈ stmtReferences index stmt ↔ r = .value index stmt.kind.value ∨
      ∃ name value, stmt.kind = .define name value ∧ r = .name name := by
  rw [stmtReferences, List.mem_append, List.mem_singleton]
  cases stmt.kind with
  | define name value => simp
  | print value => simp

/-- The names of a parameter list inside the table are the entries from its start to its end. -/
theorem mem_paramNames {a : Arena} {range : ParamRange} (h : range.stop ≤ a.params.size)
    {name : NameId} : name ∈ a.paramNames range ↔
      ∃ j, range.start.toNat ≤ j ∧ j < range.stop ∧ a.params[j]? = some name := by
  rw [paramNames, if_pos h, List.mem_iff_getElem?]
  simp only [List.getElem?_take, List.getElem?_drop, Array.getElem?_toList]
  constructor
  · rintro ⟨k, hk⟩
    rw [Option.ite_none_right_eq_some] at hk
    refine ⟨range.start.toNat + k, Nat.le_add_right _ _, ?_, hk.2⟩
    unfold ParamRange.stop
    omega
  · rintro ⟨j, hstart, hstop, hj⟩
    refine ⟨j - range.start.toNat, ?_⟩
    unfold ParamRange.stop at hstop
    rw [if_pos (by omega), Nat.add_sub_cancel' hstart]
    exact hj

end Arena

/-! ## Programs -/

namespace Program

/--
All references of a program, each with the span of the node or the statement that has it: the nodes
in table order before the statements in program order.
-/
def spannedReferences (p : Program) : List (Span × Reference) :=
  (p.arena.nodes.toList.zipIdx.flatMap fun (node, i) =>
      (p.arena.nodeReferences i node).map (node.span, ·)) ++
    p.stmts.toList.zipIdx.flatMap fun (stmt, i) =>
      (Arena.stmtReferences i stmt).map (stmt.span, ·)

theorem flaws_of_spanned (a : Arena) (span : Span) (references : List Reference) :
    ((references.map (span, ·)).filter fun r => ¬ r.2.Resolves a).map (fun r => (r.1, r.2.flaw)) =
      (a.flawsOf references).map (span, ·) := by
  rw [List.filter_map, List.map_map, Arena.flawsOf, List.map_map]
  rfl

/-- The flaws of a program are those of its unresolved references, one for each and in order. -/
theorem validate_eq (p : Program) :
    p.validate = (p.spannedReferences.filter fun r => ¬ r.2.Resolves p.arena).map
      fun r => (r.1, r.2.flaw) := by
  rw [validate, spannedReferences, List.filter_append, List.map_append, List.filter_flatMap,
    List.filter_flatMap, List.map_flatMap, List.map_flatMap]
  congr 2
  · funext x
    rw [flaws_of_spanned, ← Arena.nodeFlaws_eq]
  · funext x
    rw [flaws_of_spanned, ← Arena.stmtFlaws_eq]

example : (Program.mk ⟨#[⟨.unary .neg ⟨0⟩, .nowhere⟩, ⟨.lambda ⟨0, 1⟩ ⟨7⟩, .nowhere⟩], #[], #[]⟩
      #[⟨.define ⟨0⟩ ⟨2⟩, .nowhere⟩]).validate.map Prod.snd =
    [.danglingChild 0 ⟨0⟩, .danglingChild 1 ⟨7⟩, .paramsOutside ⟨0, 1⟩, .danglingValue 0 ⟨2⟩,
      .unknownName ⟨0⟩] := by
  decide

theorem validate_eq_nil_iff_resolves (p : Program) :
    p.validate = [] ↔ (∀ i node, p.arena.nodes[i]? = some node →
        ∀ r ∈ p.arena.nodeReferences i node, r.Resolves p.arena) ∧
      ∀ i stmt, p.stmts[i]? = some stmt →
        ∀ r ∈ Arena.stmtReferences i stmt, r.Resolves p.arena := by
  rw [validate_eq, List.map_eq_nil_iff, List.filter_eq_nil_iff]
  simp only [spannedReferences, List.forall_mem_append, List.forall_mem_flatMap,
    List.forall_mem_map, decide_eq_true_eq, Decidable.not_not, Prod.forall, List.mem_zipIdx_iff_getElem?,
    Array.getElem?_toList]
  exact and_congr forall_comm forall_comm

/-- Programs without flaws are the well-formed ones. -/
theorem validate_eq_nil_iff (p : Program) : p.validate = [] ↔ p.WellFormed := by
  rw [validate_eq_nil_iff_resolves]
  constructor
  · rintro ⟨hnodes, hstmts⟩
    have hnode : ∀ node ∈ p.arena.nodes, ∃ i,
        ∀ r ∈ p.arena.nodeReferences i node, r.Resolves p.arena := by
      intro node hmem
      rcases Array.mem_iff_getElem?.1 hmem with ⟨i, hi⟩
      exact ⟨i, hnodes i node hi⟩
    have hstmt : ∀ s ∈ p.stmts, ∃ i, ∀ r ∈ Arena.stmtReferences i s, r.Resolves p.arena := by
      intro s hmem
      rcases Array.mem_iff_getElem?.1 hmem with ⟨i, hi⟩
      exact ⟨i, hstmts i s hi⟩
    have hparams : ∀ node ∈ p.arena.nodes, ∀ range body, node.kind = .lambda range body →
        range.stop ≤ p.arena.params.size := by
      intro node hmem range body hk
      rcases hnode node hmem with ⟨i, hi⟩
      exact hi (.params range) (Arena.mem_nodeReferences.2 (.inr (.inr ⟨range, body, hk, .inl rfl⟩)))
    refine ⟨?_, ?_, hparams, ?_, ?_, ?_⟩
    · intro i node hi c hc
      exact hnodes i node hi (.child i c) (Arena.mem_nodeReferences.2 (.inl ⟨c, hc, rfl⟩))
    · intro node hmem name hk
      rcases hnode node hmem with ⟨i, hi⟩
      exact hi (.name name) (Arena.mem_nodeReferences.2 (.inr (.inl ⟨name, hk, rfl⟩)))
    · intro node hmem range body hk j name hstart hstop hj
      rcases hnode node hmem with ⟨i, hi⟩
      have hname : name ∈ p.arena.paramNames range :=
        (Arena.mem_paramNames (hparams node hmem range body hk)).2 ⟨j, hstart, hstop, hj⟩
      exact hi (.name name)
        (Arena.mem_nodeReferences.2 (.inr (.inr ⟨range, body, hk, .inr ⟨name, hname, rfl⟩⟩)))
    · intro s hmem
      rcases hstmt s hmem with ⟨i, hi⟩
      exact hi (.value i s.kind.value) (Arena.mem_stmtReferences.2 (.inl rfl))
    · intro s hmem name value hk
      rcases hstmt s hmem with ⟨i, hi⟩
      exact hi (.name name) (Arena.mem_stmtReferences.2 (.inr ⟨name, value, hk, rfl⟩))
  · intro h
    constructor
    · intro i node hi r hr
      have hmem : node ∈ p.arena.nodes := Array.mem_of_getElem? hi
      rcases Arena.mem_nodeReferences.1 hr with
        ⟨c, hc, rfl⟩ | ⟨name, hk, rfl⟩ | ⟨range, body, hk, rfl | ⟨name, hname, rfl⟩⟩
      · exact h.children_lt i node hi c hc
      · exact h.ident_lt node hmem name hk
      · exact h.params_le node hmem range body hk
      · have hle := h.params_le node hmem range body hk
        rcases (Arena.mem_paramNames hle).1 hname with ⟨j, hstart, hstop, hj⟩
        exact h.param_lt node hmem range body hk j name hstart hstop hj
    · intro i s hi r hr
      have hmem : s ∈ p.stmts := Array.mem_of_getElem? hi
      rcases Arena.mem_stmtReferences.1 hr with rfl | ⟨name, value, hk, rfl⟩
      · exact h.value_lt s hmem
      · exact h.target_lt s hmem name value hk

end Program
end SeqCalc
